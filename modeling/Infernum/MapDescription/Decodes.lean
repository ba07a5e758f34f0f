import Infernum.MapDescription.Skips

/-!
# Descriptions decode

Whatever tiles are missing, on whichever floors, a client that reads a description
finds every tile at its place. What carries the induction over the places is where
the counter and the client stand: in front of the first place and behind a marker
of `0xFF` neither counts; otherwise the next marker is still to be written, and the
client, which has read it already, skips as many places as the counter will gain.

This is about descriptions that have room in their message. The write functions
leave out what has none, and a description that is too long is not read back.
-/

namespace Infernum.MapDescription

open Infernum.Lib Infernum.Network

variable {client : Client}

/-! ### Markers -/

theorem getU16_marker (v : UInt8) (rest : List UInt8) :
    ∃ id, getU16 (v :: 0xFF :: rest) = some (id, rest) ∧ 0xFF00 ≤ id ∧
      (id &&& 0xFF).toNat = v.toNat := by
  have hv := UInt8.toNat_lt v
  have hread : getU16 (v :: 0xFF :: rest) = some (UInt16.ofNat (v.toNat + 65280), rest) := by
    rw [getU16, take, if_neg (by simp)]
    simp [decodeLE]
  have hid : (UInt16.ofNat (v.toNat + 65280)).toNat = v.toNat + 65280 := by
    rw [UInt16.toNat_ofNat']
    omega
  refine ⟨_, hread, ?_, ?_⟩
  · rw [UInt16.le_iff_toNat_le, hid]
    exact Nat.le_add_left _ _
  · rw [UInt16.toNat_and, hid]
    have hmask : (0xFF : UInt16).toNat = 2 ^ 8 - 1 := rfl
    rw [hmask, Nat.and_two_pow_sub_one_eq_mod]
    omega

theorem ofInt_natCast (k : Nat) : UInt8.ofInt (k : Int) = UInt8.ofNat k := by
  apply UInt8.toNat_inj.mp
  simp [UInt8.ofInt]
  omega

/-- The bytes of a pending counter. -/
theorem allData_flush (k : Nat) : allData (flush k) = [UInt8.ofNat k, 0xFF] := by
  have hpos : (k : Int) ≥ 0 := Int.natCast_nonneg k
  rw [flush, if_pos hpos, ofInt_natCast]
  rfl

/-! ### One tile -/

/-- The things of a tile up to the marker. -/
theorem getThings_eq (v : UInt8) (rest : List UInt8) :
    ∀ (ts : List Thing) (fuel : Nat), (∀ t ∈ ts, t.Shown client) → ts.length < fuel →
      client.getThings fuel (allData (ts.flatMap addThing) ++ (v :: 0xFF :: rest))
        = some (ts, v.toNat, rest) := by
  intro ts
  induction ts with
  | nil =>
      intro fuel _ hfuel
      obtain ⟨id, hread, hmarker, hskip⟩ := getU16_marker v rest
      cases fuel with
      | zero => omega
      | succ fuel =>
          rw [List.flatMap_nil, allData_nil, List.nil_append, Client.getThings]
          simp only [peekU16, hread, Option.map_some, Option.bind_eq_bind, Option.bind_some,
            ge_iff_le, if_pos hmarker, hskip]
          rfl
  | cons t ts ih =>
      intro fuel hshown hfuel
      cases fuel with
      | zero => simp only [List.length_cons] at hfuel; omega
      | succ fuel =>
          have hfuel' : ts.length < fuel := by
            simp only [List.length_cons] at hfuel
            omega
          have hbytes : allData ((t :: ts).flatMap addThing) ++ (v :: 0xFF :: rest)
              = allData (addThing t) ++ (allData (ts.flatMap addThing) ++ (v :: 0xFF :: rest)) := by
            rw [List.flatMap_cons, allData_append, List.append_assoc]
          have ht := hshown t List.mem_cons_self
          obtain ⟨id, hpeek, hid⟩ := peekU16_addThing client ht
            (allData (ts.flatMap addThing) ++ (v :: 0xFF :: rest))
          have hrest := ih fuel (fun t ht => hshown t (List.mem_cons_of_mem _ ht)) hfuel'
          rw [hbytes, Client.getThings, hpeek, Option.bind_eq_bind, Option.bind_some,
            if_neg (by rw [ge_iff_le, UInt16.not_le]; exact hid), getThing_addThing client ht]
          simp only [Option.bind_eq_bind, Option.bind_some, hrest]
          rfl

/-- A tile and the marker behind it. -/
theorem getTileDescription_tile (tile : TileView client) (v : UInt8) (rest : List UInt8) :
    client.getTileDescription
        (allData (GetTileDescription tile.things) ++ (v :: 0xFF :: rest))
      = some (some tile.things, v.toNat, rest) := by
  have hthings := getThings_eq v rest tile.things 256 tile.shown
    (Nat.lt_of_le_of_lt tile.few (by decide))
  have heffects : ¬(0 : UInt16) ≥ 0xFF00 := by decide
  rw [GetTileDescription, allData_cons, data, List.append_assoc, Client.getTileDescription]
  simp only [peekU16, getU16_zero, Option.map_some, Option.bind_eq_bind, Option.bind_some,
    if_neg heffects, hthings]
  rfl

/-- A place without a tile. -/
theorem getTileDescription_marker (v : UInt8) (rest : List UInt8) :
    client.getTileDescription (v :: 0xFF :: rest) = some (none, v.toNat, rest) := by
  obtain ⟨id, hread, hmarker, hskip⟩ := getU16_marker v rest
  simp only [Client.getTileDescription, peekU16, hread, Option.map_some, Option.bind_eq_bind,
    Option.bind_some, ge_iff_le, if_pos hmarker, hskip]
  rfl

/-! ### All places -/

/-- The bytes of a walk that begins with the counter at `skip`, and of the marker at
its end. -/
def written (tiles : List (Option (TileView client))) (skip : Int) : List UInt8 :=
  allData ((describe tiles skip).1 ++ flush (describe tiles skip).2)

theorem written_nil (skip : Int) :
    written ([] : List (Option (TileView client))) skip = allData (flush skip) := rfl

theorem written_some (tile : TileView client) (tiles : List (Option (TileView client)))
    (skip : Int) :
    written (some tile :: tiles) skip
      = allData (flush skip) ++ (allData (GetTileDescription tile.things) ++ written tiles 0) := by
  simp only [written, describe, allData_append, List.append_assoc]

theorem written_none (tiles : List (Option (TileView client))) {skip : Int} (h : skip ≠ 0xFE) :
    written (none :: tiles) skip = written tiles (skip + 1) := by
  simp only [written, describe, if_neg h]

theorem written_full (tiles : List (Option (TileView client))) :
    written (none :: tiles) 0xFE = 0xFF :: 0xFF :: written tiles (-1) := by
  simp [written, describe, data]

/-- What the client is to find. -/
def shown (tiles : Tiles client) (ps : List Place) : List (Place × Option (List Thing)) :=
  ps.map fun p => (p, (getTile tiles p).map (·.things))

/-- The walk and the client, from either side of a marker. With nothing counted the
client reads on; with `k` counted it has read a marker `v`, which the counter is
going to reach, and leaves `v - k` places empty first. -/
theorem getPlaces_written (tiles : Tiles client) (suffix : List UInt8) (ps : List Place) :
    client.getPlaces ps 0 (written (ps.map (getTile tiles)) (-1) ++ suffix)
        = some (shown tiles ps, 0, suffix) ∧
      ∀ k : Nat, k ≤ 254 → ∃ v rest,
        written (ps.map (getTile tiles)) k ++ suffix = UInt8.ofNat v :: 0xFF :: rest ∧
          k ≤ v ∧ v ≤ 255 ∧
          client.getPlaces ps (v - k) rest = some (shown tiles ps, 0, suffix) := by
  induction ps with
  | nil =>
      refine ⟨rfl, fun k hk => ⟨k, suffix, ?_, Nat.le_refl k, by omega, ?_⟩⟩
      · rw [List.map_nil, written_nil, allData_flush k]
        rfl
      · rw [Nat.sub_self]
        rfl
  | cons p ps ih =>
      obtain ⟨hfresh, hcount⟩ := ih
      obtain ⟨v₀, rest₀, hwritten₀, -, hv₀, hplaces₀⟩ := hcount 0 (by omega)
      have hv₀' : (UInt8.ofNat v₀).toNat = v₀ := by
        rw [UInt8.toNat_ofNat']
        omega
      rw [Nat.sub_zero] at hplaces₀
      cases htile : getTile tiles p with
      | some tile =>
          -- a tile ends any count, and its own marker is what the rest is read by
          have hread : ∀ bytes, bytes = allData (GetTileDescription tile.things)
                ++ (written (ps.map (getTile tiles)) 0 ++ suffix) →
              client.getPlaces (p :: ps) 0 bytes = some (shown tiles (p :: ps), 0, suffix) := by
            intro bytes hbytes
            have hzero : written (ps.map (getTile tiles)) 0 ++ suffix
                = UInt8.ofNat v₀ :: 0xFF :: rest₀ := hwritten₀
            rw [hbytes, hzero, Client.getPlaces, getTileDescription_tile, hv₀']
            simp only [Option.bind_eq_bind, Option.bind_some, hplaces₀, shown, List.map_cons, htile]
            rfl
          refine ⟨hread _ ?_, fun k hk => ⟨k, allData (GetTileDescription tile.things)
            ++ (written (ps.map (getTile tiles)) 0 ++ suffix), ?_, Nat.le_refl k, by omega, ?_⟩⟩
          · rw [List.map_cons, htile, written_some, List.append_assoc, List.append_assoc]
            rfl
          · rw [List.map_cons, htile, written_some, allData_flush k, List.append_assoc,
              List.append_assoc]
            rfl
          · rw [Nat.sub_self]
            exact hread _ rfl
      | none =>
          have hempty : shown tiles (p :: ps) = (p, none) :: shown tiles ps := by
            simp only [shown, List.map_cons, htile, Option.map_none]
          constructor
          · -- the first place without a tile is what a marker alone stands for
            have hzero : written (none :: ps.map (getTile tiles)) (-1) ++ suffix
                = UInt8.ofNat v₀ :: 0xFF :: rest₀ := by
              rw [written_none _ (by decide)]
              exact hwritten₀
            rw [List.map_cons, htile, hzero, Client.getPlaces, getTileDescription_marker, hv₀']
            simp only [Option.bind_eq_bind, Option.bind_some, hplaces₀, hempty]
            rfl
          · intro k hk
            by_cases hfull : k = 254
            · -- the counter is full: the marker goes out, and counting begins anew
              refine ⟨255, written (ps.map (getTile tiles)) (-1) ++ suffix, ?_, by omega,
                Nat.le_refl _, ?_⟩
              · rw [List.map_cons, htile, hfull]
                exact congrArg (· ++ suffix) (written_full _)
              · rw [hfull, Client.getPlaces, hfresh, hempty]
                rfl
            · obtain ⟨v, rest, hwritten, hkv, hv, hplaces⟩ := hcount (k + 1) (by omega)
              refine ⟨v, rest, ?_, by omega, hv, ?_⟩
              · rw [List.map_cons, htile, written_none _ (by omega)]
                exact hwritten
              · have hone : v - k = v - (k + 1) + 1 := by omega
                rw [hone, Client.getPlaces, hplaces, hempty]
                rfl

/-- Any floors in any order, and whatever is behind them. -/
theorem getPlaces_describeFloors (tiles : Tiles client) (x y z width height : Int)
    (floors : List Int) (suffix : List UInt8) :
    let (ws, skip) := describeFloors tiles x y z width height floors (-1)
    client.getPlaces (requested x y z width height floors) 0 (allData (ws ++ flush skip) ++ suffix)
      = some (shown tiles (requested x y z width height floors), 0, suffix) := by
  rw [describeFloors_eq]
  exact (getPlaces_written tiles suffix _).1

/-! ### Room in the message -/

/-- A call that is not refused for its own length. -/
def Taken : NetworkMessage.Write → Prop
  | .bytes bytes => bytes.length ≤ 8192
  | .string value => value.length ≤ 8192
  | _ => True

/-- A call with room for it adds its bytes. -/
theorem write_data {msg : NetworkMessage} (h : msg.Within) {w : NetworkMessage.Write}
    (hw : Taken w) (hroom : (data w).length + msg.position < MAX_BODY_LENGTH) :
    ∃ msg', msg.write w = some msg' ∧ msg'.Within ∧ msg'.body = msg.body ++ data w ∧
      msg'.length = msg.length + (data w).length := by
  cases w with
  | byte value =>
      have hcan : msg.canAdd 1 = true := decide_eq_true hroom
      rw [NetworkMessage.write, NetworkMessage.addByte, if_pos hcan]
      exact NetworkMessage.put_spec h [value] hroom
  | number size value =>
      have hsize : (encodeLE size value).length = size := length_encodeLE size value
      have hcan : msg.canAdd size = true := by
        rw [data, hsize] at hroom
        exact decide_eq_true hroom
      rw [NetworkMessage.write, NetworkMessage.add, if_pos hcan]
      exact NetworkMessage.put_spec h (encodeLE size value) hroom
  | bytes bytes =>
      have hcan : msg.canAdd bytes.length = true := decide_eq_true hroom
      have hlen : ¬bytes.length > 8192 := Nat.not_lt.mpr hw
      rw [NetworkMessage.write, NetworkMessage.addBytes, if_neg (by simp [hcan, hlen])]
      exact NetworkMessage.put_spec h bytes hroom
  | string value =>
      have hsize : (data (.string value)).length = value.length + 2 := by
        rw [data, List.length_append, length_encodeLE, Nat.add_comm]
      rw [hsize] at hroom ⊢
      have hcan : msg.canAdd (value.length + 2) = true := decide_eq_true hroom
      have htwo : msg.canAdd 2 = true := decide_eq_true (by omega)
      have hlen : ¬value.length > 8192 := Nat.not_lt.mpr hw
      obtain ⟨m, hm, hwithin, hbody, hlength⟩ := NetworkMessage.put_spec h
        (encodeLE 2 value.length) (by rw [length_encodeLE]; omega)
      rw [length_encodeLE] at hlength
      have hpos := h.position
      have hpos' := hwithin.position
      obtain ⟨m', hm', hwithin', hbody', hlength'⟩ := NetworkMessage.put_spec hwithin value
        (by omega)
      refine ⟨m', ?_, hwithin', ?_, by omega⟩
      · rw [NetworkMessage.write, NetworkMessage.addString, if_neg (by simp [hcan, hlen]),
          NetworkMessage.add, if_pos htwo, hm]
        exact hm'
      · rw [hbody', hbody, data, List.append_assoc]

/-- Calls with room for all of them. -/
theorem build_data (ws : List NetworkMessage.Write) :
    ∀ {msg : NetworkMessage}, msg.Within → (∀ w ∈ ws, Taken w) →
      (allData ws).length + msg.position < MAX_BODY_LENGTH →
      ∃ msg', msg.build ws = some msg' ∧ msg'.Within ∧ msg'.body = msg.body ++ allData ws := by
  induction ws with
  | nil => exact fun {msg} h _ _ => ⟨msg, rfl, h, (List.append_nil _).symm⟩
  | cons w ws ih =>
      intro msg h htaken hroom
      rw [allData_cons, List.length_append] at hroom
      obtain ⟨m, hm, hwithin, hbody, hlength⟩ := write_data h (htaken w List.mem_cons_self)
        (by omega)
      have hpos := h.position
      have hpos' := hwithin.position
      obtain ⟨m', hm', hwithin', hbody'⟩ := ih hwithin
        (fun w hw => htaken w (List.mem_cons_of_mem _ hw)) (by omega)
      refine ⟨m', ?_, hwithin', ?_⟩
      · rw [NetworkMessage.build, hm]
        exact hm'
      · rw [hbody', hbody, allData_cons, List.append_assoc]

theorem taken_addThing {t : Thing} (h : t.Shown client) : ∀ w ∈ addThing t, Taken w := by
  cases t with
  | item clientId count isAnimation =>
      cases count <;> cases isAnimation <;> simp [addThing, addItem, Taken]
  | creature c =>
      obtain ⟨introduction, id, appearance, marks⟩ := c
      have hlook : ∀ w ∈ addLook appearance.look, Taken w := by
        cases appearance.look <;> simp [addLook, Taken]
      have happearance : ∀ w ∈ addAppearance appearance, Taken w := by
        simp only [addAppearance, addOutfit, List.forall_mem_append]
        exact ⟨by simp [Taken], ⟨hlook, by simp [Taken]⟩, by simp [Taken]⟩
      cases introduction with
      | none =>
          simp only [addThing, addCreature, List.forall_mem_append]
          exact ⟨by simp [Taken], happearance, by simp [addMarks, Taken]⟩
      | some new =>
          have hname := h.1 new rfl
          simp only [addThing, addCreature, List.forall_mem_append]
          exact ⟨by simp [Taken, hname], happearance, by simp [addMarks, Taken]⟩

theorem taken_flush (skip : Int) : ∀ w ∈ flush skip, Taken w := by
  unfold flush
  split
  · simp [Taken]
  · exact fun w hw => absurd hw List.not_mem_nil

theorem taken_describe (tiles : List (Option (TileView client))) (skip : Int) :
    ∀ w ∈ (describe tiles skip).1, Taken w := by
  induction tiles generalizing skip with
  | nil => exact fun w hw => absurd hw List.not_mem_nil
  | cons tile tiles ih =>
      cases tile with
      | some tile =>
          have hthings : ∀ w ∈ GetTileDescription tile.things, Taken w := by
            intro w hw
            rcases List.mem_cons.mp hw with rfl | hw
            · trivial
            · obtain ⟨t, ht, hw⟩ := List.mem_flatMap.mp hw
              exact taken_addThing (tile.shown t ht) w hw
          simp only [describe, List.forall_mem_append]
          exact ⟨taken_flush skip, hthings, ih 0⟩
      | none =>
          simp only [describe]
          split
          · simp only [List.forall_mem_cons]
            exact ⟨trivial, trivial, ih (-1)⟩
          · exact ih (skip + 1)

/-! ### Whole descriptions -/

theorem GetMapDescription_eq (tiles : Tiles client) (x y width height : Int) {z : Int}
    {l : List Int} (hl : floors z = some l) :
    GetMapDescription tiles x y z width height
      = some ((describeFloors tiles x y z width height l (-1)).1
        ++ flush (describeFloors tiles x y z width height l (-1)).2) := by
  rw [GetMapDescription, hl, Option.bind_eq_bind, Option.bind_some]
  rfl

/-- **On every floor of a map, for every rectangle and whatever tiles are there: a
description that has room in its message is written whole, and a client that reads
it finds every tile at its place and nothing at the others, whatever is behind.** -/
theorem map_description_decodes (tiles : Tiles client) (x y width height : Int) {z : Int}
    (hz : z < MAP_MAX_LAYERS) {msg : NetworkMessage} (hmsg : msg.Within) :
    ∃ l ws, floors z = some l ∧ GetMapDescription tiles x y z width height = some ws ∧
      ((allData ws).length + msg.position < MAX_BODY_LENGTH →
        ∃ msg', msg.build ws = some msg' ∧ msg'.body = msg.body ++ allData ws ∧
          ∀ suffix, client.getMapDescription x y z width height (allData ws ++ suffix)
            = some (shown tiles (requested x y z width height l), suffix)) := by
  obtain ⟨l, hl⟩ := exists_floors hz
  have hplaces := getPlaces_describeFloors tiles x y z width height l
  have htaken : ∀ w ∈ (describeFloors tiles x y z width height l (-1)).1
      ++ flush (describeFloors tiles x y z width height l (-1)).2, Taken w := by
    rw [describeFloors_eq, List.forall_mem_append]
    exact ⟨taken_describe _ _, taken_flush _⟩
  refine ⟨l, _, hl, GetMapDescription_eq tiles x y width height hl, fun hroom => ?_⟩
  obtain ⟨msg', hbuild, -, hbody⟩ := build_data _ hmsg htaken hroom
  refine ⟨msg', hbuild, hbody, fun suffix => ?_⟩
  rw [Client.getMapDescription, hl, Option.bind_eq_bind, Option.bind_some, hplaces suffix]
  rfl

/-- A client that knows no counts and no animations. -/
def plainClient : Client := { hasCount := fun _ => false, isAnimation := fun _ => false }

/-- No tile but one, with one item on it. -/
def oneTile : Tiles plainClient := fun x y z =>
  if x = 100 ∧ y = 100 ∧ z = 7 then
    some
      { things := [.item 100 none false]
        few := by decide
        shown := by
          intro t ht
          rw [List.mem_singleton.mp ht]
          exact ⟨by decide, by decide, by decide, rfl, rfl⟩ }
  else none

/-- A message whose bytes nothing has written yet. -/
def unwritten : Buffer :=
  { cells := List.replicate NETWORKMESSAGE_MAXSIZE 0, size := length_cells_clear }

/-- The place it is on and the floors above, at the start of a message. -/
theorem map_description_decodes_oneTile :
    ∃ ws msg', GetMapDescription oneTile 100 100 7 1 1 = some ws ∧
      (NetworkMessage.new unwritten).build ws = some msg' ∧
      msg'.body = (NetworkMessage.new unwritten).body ++ allData ws ∧
      ∀ suffix, plainClient.getMapDescription 100 100 7 1 1 (allData ws ++ suffix)
        = some ((⟨100, 100, 7⟩, some [.item 100 none false])
          :: [(⟨101, 101, 6⟩, none), (⟨102, 102, 5⟩, none), (⟨103, 103, 4⟩, none),
            (⟨104, 104, 3⟩, none), (⟨105, 105, 2⟩, none), (⟨106, 106, 1⟩, none),
            (⟨107, 107, 0⟩, none)], suffix) := by
  obtain ⟨l, ws, hl, hws, hdecodes⟩ := map_description_decodes oneTile 100 100 1 1
    (by decide : (7 : Int) < MAP_MAX_LAYERS) (NetworkMessage.within_new unwritten)
  have hfloors : l = [7, 6, 5, 4, 3, 2, 1, 0] := (Option.some.inj hl).symm
  have hwrites : ws = [.number 2 0, .number 2 100, .byte 0xFF, .byte 7, .byte 0xFF] :=
    (Option.some.inj hws).symm
  obtain ⟨msg', hbuild, hbody, hread⟩ := hdecodes (by
    rw [hwrites, MAX_BODY_LENGTH_eq]
    exact (by decide : 7 + 8 < 24576))
  refine ⟨ws, msg', hws, hbuild, hbody, fun suffix => ?_⟩
  rw [hread suffix, hfloors]
  rfl

/-! ### Descriptions that have no room -/

theorem take_length {n v : Nat} {s r : List UInt8} (h : take n s = some (v, r)) :
    r.length + n = s.length := by
  unfold take at h
  split at h
  · cases h
  · rw [Option.some.injEq, Prod.mk.injEq] at h
    rw [← h.2, List.length_drop]
    omega

theorem getU16_length {v : UInt16} {s r : List UInt8} (h : getU16 s = some (v, r)) :
    r.length + 2 = s.length := by
  rw [getU16, Option.bind_eq_bind, Option.bind_eq_some_iff] at h
  obtain ⟨⟨w, r'⟩, htake, heq⟩ := h
  rw [Option.pure_def, Option.some.injEq, Prod.mk.injEq] at heq
  rw [← heq.2]
  exact take_length htake

theorem getU8_length {v : UInt8} {s r : List UInt8} (h : getU8 s = some (v, r)) :
    r.length + 1 = s.length := by
  rw [getU8, Option.bind_eq_bind, Option.bind_eq_some_iff] at h
  obtain ⟨⟨w, r'⟩, htake, heq⟩ := h
  rw [Option.pure_def, Option.some.injEq, Prod.mk.injEq] at heq
  rw [← heq.2]
  exact take_length htake

/-- An item takes three bytes at least. -/
theorem getThing_item_length {s r : List UInt8} {clientId : UInt16} {count : Option UInt8}
    {isAnimation : Bool} (h : client.getThing s = some (.item clientId count isAnimation, r)) :
    r.length + 3 ≤ s.length := by
  simp only [Client.getThing, Option.bind_eq_bind, Option.bind_eq_some_iff] at h
  obtain ⟨⟨id, s₁⟩, hid, h⟩ := h
  have hlen := getU16_length hid
  simp only at h hlen
  split at h
  · simp only [Option.bind_eq_some_iff, Option.pure_def, Option.some.injEq, Prod.mk.injEq,
      reduceCtorEq, false_and, and_false, exists_false] at h
  · split at h
    · simp only [Option.bind_eq_some_iff, Option.pure_def, Option.some.injEq, Prod.mk.injEq,
        reduceCtorEq, false_and, and_false, exists_false] at h
    · simp only [Client.getItem, Option.bind_eq_bind, Option.bind_eq_some_iff] at h
      obtain ⟨⟨mark, s₂⟩, hmark, ⟨count', s₃⟩, hcount, h⟩ := h
      have hlen₂ := getU8_length hmark
      have hlen₃ : s₃.length ≤ s₂.length := by
        split at hcount
        · simp only [Option.bind_eq_some_iff, Option.pure_def, Option.some.injEq,
            Prod.mk.injEq] at hcount
          obtain ⟨⟨c, s₄⟩, hc, -, rfl⟩ := hcount
          have hlen₄ := getU8_length hc
          simp only at hlen₄ ⊢
          omega
        · simp only [Option.some.injEq, Prod.mk.injEq] at hcount
          rw [hcount.2]
      have hlen₄ : r.length ≤ s₃.length := by
        split at h
        · simp only [Option.bind_eq_some_iff, Option.pure_def, Option.some.injEq,
            Prod.mk.injEq] at h
          obtain ⟨⟨c, s₄⟩, hc, -, rfl⟩ := h
          have hlen₄ := getU8_length hc
          simp only at hlen₄ ⊢
          omega
        · simp only [Option.pure_def, Option.some.injEq, Prod.mk.injEq] at h
          rw [h.2]
      omega

/-- The thing is an item. -/
def Thing.isItem : Thing → Bool
  | .item .. => true
  | .creature _ => false

theorem getThings_length :
    ∀ (fuel : Nat) {ts : List Thing} {skip : Nat} {s r : List UInt8},
      client.getThings fuel s = some (ts, skip, r) → (∀ t ∈ ts, t.isItem = true) →
      r.length + (3 * ts.length + 2) ≤ s.length := by
  intro fuel
  induction fuel with
  | zero => intro ts skip s r h; cases h
  | succ fuel ih =>
      intro ts skip s r h hitems
      simp only [Client.getThings, Option.bind_eq_bind, Option.bind_eq_some_iff] at h
      obtain ⟨id, -, h⟩ := h
      split at h
      · simp only [Option.bind_eq_some_iff, Option.pure_def, Option.some.injEq,
          Prod.mk.injEq] at h
        obtain ⟨⟨marker, s₁⟩, hmarker, rfl, -, rfl⟩ := h
        have hlen := getU16_length hmarker
        rw [List.length_nil]
        simp only at hlen ⊢
        omega
      · simp only [Option.bind_eq_some_iff, Option.pure_def, Option.some.injEq,
          Prod.mk.injEq] at h
        obtain ⟨⟨t, s₁⟩, ht, ⟨rest, skip', s₂⟩, hrest, rfl, -, rfl⟩ := h
        have hlen := ih hrest fun t ht => hitems t (List.mem_cons_of_mem _ ht)
        have hitem := hitems t List.mem_cons_self
        cases t with
        | item clientId count isAnimation =>
            have hlen' := getThing_item_length ht
            rw [List.length_cons]
            simp only at hlen hlen' ⊢
            omega
        | creature c => cases hitem

/-- A crowded floor takes its bytes: every tile has its effects, its things and its
marker. -/
theorem getPlaces_length {ts : List Thing} (hitems : ∀ t ∈ ts, t.isItem = true) :
    ∀ (ps : List Place) {skip last : Nat} {s r : List UInt8},
      client.getPlaces ps skip s = some (ps.map fun p => (p, some ts), last, r) →
      r.length + ps.length * (3 * ts.length + 4) ≤ s.length := by
  intro ps
  induction ps with
  | nil =>
      intro skip last s r h
      simp only [Client.getPlaces, List.map_nil, Option.some.injEq, Prod.mk.injEq, true_and] at h
      rw [h.2, List.length_nil]
      omega
  | cons p ps ih =>
      intro skip last s r h
      cases skip with
      | zero =>
          simp only [Client.getPlaces, Option.bind_eq_bind, Option.bind_eq_some_iff,
            Option.pure_def, Option.some.injEq, Prod.mk.injEq, List.map_cons,
            List.cons.injEq] at h
          obtain ⟨⟨tile, skip', s₁⟩, htile, ⟨rest, last', s₂⟩, hrest, ⟨⟨-, rfl⟩, rfl⟩, -, rfl⟩ := h
          have hlen := ih hrest
          simp only [Client.getTileDescription, Option.bind_eq_bind, Option.bind_eq_some_iff] at htile
          obtain ⟨id, -, ⟨marker, s₃⟩, hmarker, htile⟩ := htile
          have hlen₃ := getU16_length hmarker
          simp only at htile
          split at htile
          · simp only [Option.pure_def, Option.some.injEq, Prod.mk.injEq, reduceCtorEq,
              false_and] at htile
          · simp only [Option.bind_eq_some_iff, Option.pure_def, Option.some.injEq,
              Prod.mk.injEq] at htile
            obtain ⟨⟨things, skip'', s₄⟩, hthings, rfl, -, rfl⟩ := htile
            have hlen₄ := getThings_length 256 hthings hitems
            have hmul : (ps.length + 1) * (3 * things.length + 4)
                = ps.length * (3 * things.length + 4) + (3 * things.length + 4) := Nat.succ_mul _ _
            rw [List.length_cons, hmul]
            simp only at hlen hlen₃ hlen₄ ⊢
            omega
      | succ skip =>
          simp only [Client.getPlaces, Option.bind_eq_bind, Option.bind_eq_some_iff,
            Option.pure_def, Option.some.injEq, Prod.mk.injEq, List.map_cons, List.cons.injEq,
            reduceCtorEq, and_false, false_and, exists_false] at h

/-- The same four items everywhere. -/
def crowd : Tiles plainClient := fun _ _ _ =>
  some
    { things := List.replicate 4 (.item 100 none false)
      few := by decide
      shown := by
        intro t ht
        rw [List.eq_of_mem_replicate ht]
        exact ⟨by decide, by decide, by decide, rfl, rfl⟩ }

/-- The whole screen with a tile at every place and four items on each: what the
message holds of the description is not read as it. -/
theorem crowded_screen_lost :
    ∃ l ws msg', floors 7 = some l ∧ GetMapDescription crowd 92 94 7 18 14 = some ws ∧
      (NetworkMessage.new unwritten).build ws = some msg' ∧
      plainClient.getMapDescription 92 94 7 18 14 msg'.body
        ≠ some (shown crowd (requested 92 94 7 18 14 l), []) := by
  have hfloors : floors 7 = some [7, 6, 5, 4, 3, 2, 1, 0] := rfl
  have hlength : (requested 92 94 7 18 14 [7, 6, 5, 4, 3, 2, 1, 0]).length = 2016 := by
    simp [requested, floorPlaces]
  obtain ⟨msg', hbuild, hwithin⟩ := NetworkMessage.build_spec
    ((describeFloors crowd 92 94 7 18 14 [7, 6, 5, 4, 3, 2, 1, 0] (-1)).1
      ++ flush (describeFloors crowd 92 94 7 18 14 [7, 6, 5, 4, 3, 2, 1, 0] (-1)).2)
    (NetworkMessage.within_new unwritten)
  refine ⟨_, _, msg', hfloors, GetMapDescription_eq crowd 92 94 18 14 hfloors, hbuild,
    fun hread => ?_⟩
  have hroom := hwithin.length_lt
  rw [INITIAL_BUFFER_POSITION_eq, MAX_BODY_LENGTH_eq] at hroom
  have hbody : msg'.body.length = msg'.length :=
    Region.length_slice (by rw [INITIAL_BUFFER_POSITION_eq, NETWORKMESSAGE_MAXSIZE_eq]; omega)
  simp only [Client.getMapDescription, hfloors, Option.bind_eq_bind, Option.bind_some,
    Option.bind_eq_some_iff, Option.pure_def, Option.some.injEq, Prod.mk.injEq] at hread
  obtain ⟨⟨places, last, r⟩, hplaces, rfl, rfl⟩ := hread
  have hitems : ∀ t ∈ List.replicate 4 (Thing.item 100 none false), t.isItem = true := by
    intro t ht
    rw [List.eq_of_mem_replicate ht]
    rfl
  have hcrowded := getPlaces_length hitems _ hplaces
  rw [hlength, List.length_replicate, hbody, List.length_nil] at hcrowded
  omega

end Infernum.MapDescription
