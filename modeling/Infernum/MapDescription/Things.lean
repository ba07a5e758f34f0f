import Infernum.Network.NetworkMessage

/-!
# Things of a tile on the wire

What `GetTileDescription` writes: two bytes for environmental effects, and an item
(`addItem`) or a creature (`AddCreature`) for each thing that is shown. A client
reads them back; it tells the things apart by their first two bytes, and knows from
its own files which items come with a count and which are animated.

No thing begins as a skip marker does, with two bytes from `0xFF00` on.
-/

namespace Infernum.MapDescription

open Infernum.Lib Infernum.Network

/-! ### Bytes of a call -/

/-- What a call of a write function adds to a message that has room. -/
def data : NetworkMessage.Write → List UInt8
  | .byte value => [value]
  | .number size value => encodeLE size value
  | .bytes bytes => bytes
  | .string value => encodeLE 2 value.length ++ value

/-- What some calls add. -/
def allData (ws : List NetworkMessage.Write) : List UInt8 := ws.flatMap data

@[simp] theorem allData_nil : allData [] = [] := rfl

@[simp] theorem allData_cons (w : NetworkMessage.Write) (ws : List NetworkMessage.Write) :
    allData (w :: ws) = data w ++ allData ws := List.flatMap_cons

@[simp] theorem allData_append (ws ws' : List NetworkMessage.Write) :
    allData (ws ++ ws') = allData ws ++ allData ws' := List.flatMap_append

/-! ### Things -/

/-- What `AddOutfit` shows of an outfit, without the mount. -/
inductive Look where
  | outfit (lookType : UInt16) (lookHead lookBody lookLegs lookFeet lookAddons : UInt8)
  | item (clientId : UInt16)
deriving DecidableEq

/-- What a creature brings along that the client does not know yet: the id it may
forget, and what it is told once. -/
structure Introduction where
  remove : UInt32
  creatureType : UInt8
  name : List UInt8
  emblem : UInt8
deriving DecidableEq

/-- What `AddCreature` shows of every creature, in two parts: the emblem of a new
one stands between them. -/
structure Appearance where
  health : UInt8
  direction : UInt8
  look : Look
  lookMount : UInt16
  lightLevel : UInt8
  lightColor : UInt8
  stepSpeed : UInt16
  skull : UInt8
  shield : UInt8
deriving DecidableEq

structure Marks where
  creatureType : UInt8
  speechBubble : UInt8
  helpers : UInt16
  unpass : UInt8
deriving DecidableEq

structure CreatureView where
  introduction : Option Introduction
  id : UInt32
  appearance : Appearance
  marks : Marks
deriving DecidableEq

/-- `count` is there for stackable items, splashes and fluid containers. -/
inductive Thing where
  | item (clientId : UInt16) (count : Option UInt8) (isAnimation : Bool)
  | creature (creature : CreatureView)
deriving DecidableEq

/-- `AddOutfit` up to the mount. -/
def addLook : Look → List NetworkMessage.Write
  | .outfit lookType lookHead lookBody lookLegs lookFeet lookAddons =>
      [.number 2 lookType.toNat, .byte lookHead, .byte lookBody, .byte lookLegs, .byte lookFeet,
        .byte lookAddons]
  | .item clientId => [.number 2 0, .number 2 clientId.toNat]

/-- `AddOutfit` -/
def addOutfit (look : Look) (lookMount : UInt16) : List NetworkMessage.Write :=
  addLook look ++ [.number 2 lookMount.toNat]

def addAppearance (a : Appearance) : List NetworkMessage.Write :=
  [.byte a.health, .byte a.direction]
    ++ (addOutfit a.look a.lookMount
    ++ [.byte a.lightLevel, .byte a.lightColor, .number 2 a.stepSpeed.toNat, .byte a.skull,
      .byte a.shield])

def addMarks (m : Marks) : List NetworkMessage.Write :=
  [.byte m.creatureType, .byte m.speechBubble, .byte 0xFF, .number 2 m.helpers.toNat,
    .byte m.unpass]

/-- `AddCreature`, with `known` if there is no introduction. -/
def addCreature (c : CreatureView) : List NetworkMessage.Write :=
  match c.introduction with
  | none =>
      [.number 2 0x62, .number 4 c.id.toNat] ++ (addAppearance c.appearance ++ addMarks c.marks)
  | some new =>
      [.number 2 0x61, .number 4 new.remove.toNat, .number 4 c.id.toNat, .byte new.creatureType,
        .string new.name]
        ++ (addAppearance c.appearance ++ (.byte new.emblem :: addMarks c.marks))

/-- `NetworkMessage::addItem` -/
def addItem (clientId : UInt16) (count : Option UInt8) (isAnimation : Bool) :
    List NetworkMessage.Write :=
  [.number 2 clientId.toNat, .byte 0xFF]
    ++ (match count with
      | none => []
      | some count => [.byte count])
    ++ if isAnimation then [.byte 0xFE] else []

def addThing : Thing → List NetworkMessage.Write
  | .item clientId count isAnimation => addItem clientId count isAnimation
  | .creature c => addCreature c

/-- `GetTileDescription`, for the things that it chooses. -/
def GetTileDescription (things : List Thing) : List NetworkMessage.Write :=
  .number 2 0 :: things.flatMap addThing

/-! ### The client -/

/-- What the files of a client say of an item. -/
structure Client where
  hasCount : UInt16 → Bool
  isAnimation : UInt16 → Bool

/-- The next `n` bytes as a number. -/
def take (n : Nat) (s : List UInt8) : Option (Nat × List UInt8) :=
  if s.length < n then none else some (decodeLE (s.take n), s.drop n)

def getU8 (s : List UInt8) : Option (UInt8 × List UInt8) := do
  let (v, s) ← take 1 s
  pure (UInt8.ofNat v, s)

def getU16 (s : List UInt8) : Option (UInt16 × List UInt8) := do
  let (v, s) ← take 2 s
  pure (UInt16.ofNat v, s)

/-- The next two bytes, which stay where they are. -/
def peekU16 (s : List UInt8) : Option UInt16 := (getU16 s).map (·.1)

def getU32 (s : List UInt8) : Option (UInt32 × List UInt8) := do
  let (v, s) ← take 4 s
  pure (UInt32.ofNat v, s)

def getString (s : List UInt8) : Option (List UInt8 × List UInt8) := do
  let (len, s) ← take 2 s
  if s.length < len then none else some (s.take len, s.drop len)

def getLook (s : List UInt8) : Option (Look × List UInt8) := do
  let (lookType, s) ← getU16 s
  if lookType = 0 then do
    let (clientId, s) ← getU16 s
    pure (.item clientId, s)
  else do
    let (lookHead, s) ← getU8 s
    let (lookBody, s) ← getU8 s
    let (lookLegs, s) ← getU8 s
    let (lookFeet, s) ← getU8 s
    let (lookAddons, s) ← getU8 s
    pure (.outfit lookType lookHead lookBody lookLegs lookFeet lookAddons, s)

def getAppearance (s : List UInt8) : Option (Appearance × List UInt8) := do
  let (health, s) ← getU8 s
  let (direction, s) ← getU8 s
  let (look, s) ← getLook s
  let (lookMount, s) ← getU16 s
  let (lightLevel, s) ← getU8 s
  let (lightColor, s) ← getU8 s
  let (stepSpeed, s) ← getU16 s
  let (skull, s) ← getU8 s
  let (shield, s) ← getU8 s
  pure (⟨health, direction, look, lookMount, lightLevel, lightColor, stepSpeed, skull, shield⟩, s)

def getMarks (s : List UInt8) : Option (Marks × List UInt8) := do
  let (creatureType, s) ← getU8 s
  let (speechBubble, s) ← getU8 s
  let (_, s) ← getU8 s
  let (helpers, s) ← getU16 s
  let (unpass, s) ← getU8 s
  pure (⟨creatureType, speechBubble, helpers, unpass⟩, s)

/-- A creature behind its `0x62`. -/
def getKnown (s : List UInt8) : Option (CreatureView × List UInt8) := do
  let (id, s) ← getU32 s
  let (appearance, s) ← getAppearance s
  let (marks, s) ← getMarks s
  pure (⟨none, id, appearance, marks⟩, s)

/-- A creature behind its `0x61`. -/
def getUnknown (s : List UInt8) : Option (CreatureView × List UInt8) := do
  let (remove, s) ← getU32 s
  let (id, s) ← getU32 s
  let (creatureType, s) ← getU8 s
  let (name, s) ← getString s
  let (appearance, s) ← getAppearance s
  let (emblem, s) ← getU8 s
  let (marks, s) ← getMarks s
  pure (⟨some ⟨remove, creatureType, name, emblem⟩, id, appearance, marks⟩, s)

/-- An item behind its id. -/
def Client.getItem (client : Client) (clientId : UInt16) (s : List UInt8) :
    Option (Thing × List UInt8) := do
  let (_, s) ← getU8 s
  let (count, s) ← (if client.hasCount clientId then do
      let (count, s) ← getU8 s
      pure (some count, s)
    else some (none, s))
  if client.isAnimation clientId then do
    let (_, s) ← getU8 s
    pure (.item clientId count true, s)
  else pure (.item clientId count false, s)

def Client.getThing (client : Client) (s : List UInt8) : Option (Thing × List UInt8) := do
  let (id, s) ← getU16 s
  if id = 0x61 then do
    let (creature, s) ← getUnknown s
    pure (.creature creature, s)
  else if id = 0x62 then do
    let (creature, s) ← getKnown s
    pure (.creature creature, s)
  else client.getItem id s

/-- The client has the thing: an item as its files describe it, whose id is neither
one of the two that announce creatures nor a skip marker; an outfit that is one; a
name that `addString` takes. -/
def Thing.Shown (client : Client) : Thing → Prop
  | .item clientId count isAnimation =>
      clientId ≠ 0x61 ∧ clientId ≠ 0x62 ∧ clientId < 0xFF00 ∧
        count.isSome = client.hasCount clientId ∧ isAnimation = client.isAnimation clientId
  | .creature c =>
      (∀ new, c.introduction = some new → new.name.length ≤ 8192) ∧
        ∀ lookType head body legs feet addons,
          c.appearance.look = .outfit lookType head body legs feet addons → lookType ≠ 0

/-! ### There and back -/

theorem take_encodeLE (n v : Nat) (rest : List UInt8) (h : v < 256 ^ n) :
    take n (encodeLE n v ++ rest) = some (v, rest) := by
  have hlen : (encodeLE n v).length = n := length_encodeLE n v
  rw [take, if_neg (by rw [List.length_append]; omega), List.take_left' hlen,
    List.drop_left' hlen, decodeLE_encodeLE, Nat.mod_eq_of_lt h]

@[simp] theorem getU8_cons (v : UInt8) (rest : List UInt8) : getU8 (v :: rest) = some (v, rest) := by
  simp [getU8, take, decodeLE]

@[simp] theorem getU16_encodeLE (v : UInt16) (rest : List UInt8) :
    getU16 (encodeLE 2 v.toNat ++ rest) = some (v, rest) := by
  rw [getU16, take_encodeLE 2 _ _ (UInt16.toNat_lt v)]
  simp

@[simp] theorem getU32_encodeLE (v : UInt32) (rest : List UInt8) :
    getU32 (encodeLE 4 v.toNat ++ rest) = some (v, rest) := by
  rw [getU32, take_encodeLE 4 _ _ (UInt32.toNat_lt v)]
  simp

theorem getString_encode {str : List UInt8} (rest : List UInt8) (h : str.length ≤ 8192) :
    getString (encodeLE 2 str.length ++ (str ++ rest)) = some (str, rest) := by
  rw [getString, take_encodeLE 2 _ _ (by omega)]
  simp

theorem getU16_zero (rest : List UInt8) : getU16 (encodeLE 2 0 ++ rest) = some (0, rest) :=
  getU16_encodeLE 0 rest

theorem getU16_unknown (rest : List UInt8) :
    getU16 (encodeLE 2 0x61 ++ rest) = some (0x61, rest) := getU16_encodeLE 0x61 rest

theorem getU16_known (rest : List UInt8) :
    getU16 (encodeLE 2 0x62 ++ rest) = some (0x62, rest) := getU16_encodeLE 0x62 rest

theorem getLook_addLook {look : Look} (rest : List UInt8)
    (h : ∀ lookType head body legs feet addons,
      look = .outfit lookType head body legs feet addons → lookType ≠ 0) :
    getLook (allData (addLook look) ++ rest) = some (look, rest) := by
  cases look with
  | outfit lookType lookHead lookBody lookLegs lookFeet lookAddons =>
      have hlook := h _ _ _ _ _ _ rfl
      simp [addLook, data, getLook, hlook]
  | item clientId => simp [addLook, data, getLook, getU16_zero]

theorem getAppearance_addAppearance {a : Appearance} (rest : List UInt8)
    (hlook : ∀ lookType head body legs feet addons,
      a.look = .outfit lookType head body legs feet addons → lookType ≠ 0) :
    getAppearance (allData (addAppearance a) ++ rest) = some (a, rest) := by
  simp only [addAppearance, addOutfit, allData_append, allData_cons, allData_nil, data,
    List.append_assoc, List.append_nil, List.cons_append, List.nil_append, getAppearance,
    Option.bind_eq_bind, Option.bind_some, getU8_cons, getU16_encodeLE, getLook_addLook _ hlook,
    Option.pure_def]

theorem getMarks_addMarks (m : Marks) (rest : List UInt8) :
    getMarks (allData (addMarks m) ++ rest) = some (m, rest) := by
  simp only [addMarks, allData_cons, allData_nil, data, List.append_assoc, List.append_nil,
    List.cons_append, List.nil_append, getMarks, Option.bind_eq_bind, Option.bind_some, getU8_cons,
    getU16_encodeLE, Option.pure_def]

theorem getItem_addItem (client : Client) (clientId : UInt16) {count : Option UInt8}
    {isAnimation : Bool} (hcount : count.isSome = client.hasCount clientId)
    (hanimation : isAnimation = client.isAnimation clientId) (rest : List UInt8) :
    client.getItem clientId (0xFF :: ((match count with
      | none => []
      | some count => [count]) ++ ((if isAnimation then [0xFE] else []) ++ rest)))
      = some (.item clientId count isAnimation, rest) := by
  cases count with
  | none =>
      rw [Option.isSome_none] at hcount
      cases isAnimation <;> simp [Client.getItem, ← hcount, ← hanimation]
  | some count =>
      rw [Option.isSome_some] at hcount
      cases isAnimation <;> simp [Client.getItem, ← hcount, ← hanimation]

/-- A client that has the thing reads it back. -/
theorem getThing_addThing (client : Client) {t : Thing} (h : t.Shown client)
    (rest : List UInt8) : client.getThing (allData (addThing t) ++ rest) = some (t, rest) := by
  cases t with
  | item clientId count isAnimation =>
      obtain ⟨hnew, hknown, -, hcount, hanimation⟩ := h
      have hitem := getItem_addItem client clientId hcount hanimation rest
      have hbytes : allData (addItem clientId count isAnimation) ++ rest
          = encodeLE 2 clientId.toNat ++ (0xFF :: ((match count with
            | none => []
            | some count => [count]) ++ ((if isAnimation then [0xFE] else []) ++ rest))) := by
        cases count <;> cases isAnimation <;> simp [addItem, data]
      rw [addThing, hbytes, Client.getThing, getU16_encodeLE, Option.bind_eq_bind,
        Option.bind_some]
      simp only [if_neg hnew, if_neg hknown]
      exact hitem
  | creature c =>
      obtain ⟨introduction, id, appearance, marks⟩ := c
      obtain ⟨hname, hlook⟩ := h
      cases introduction with
      | none =>
          simp only [addThing, addCreature, allData_append, allData_cons, allData_nil, data,
            List.append_assoc, List.nil_append, Client.getThing, getU16_known, getKnown,
            Option.bind_eq_bind, Option.bind_some, getU32_encodeLE,
            getAppearance_addAppearance _ hlook, getMarks_addMarks, Option.pure_def]
          rfl
      | some new =>
          have hnew := hname new rfl
          simp only [addThing, addCreature, allData_append, allData_cons, data,
            List.append_assoc, List.nil_append, List.cons_append, Client.getThing, getU16_unknown,
            getUnknown, Option.bind_eq_bind, Option.bind_some, getU32_encodeLE, getU8_cons,
            getString_encode _ hnew, getAppearance_addAppearance _ hlook, getMarks_addMarks,
            Option.pure_def]
          rfl

/-- What a thing begins with is not a skip marker. -/
theorem peekU16_addThing (client : Client) {t : Thing} (h : t.Shown client) (rest : List UInt8) :
    ∃ id, peekU16 (allData (addThing t) ++ rest) = some id ∧ id < 0xFF00 := by
  cases t with
  | item clientId count isAnimation =>
      refine ⟨clientId, ?_, h.2.2.1⟩
      simp only [addThing, addItem, allData_append, allData_cons, data, List.append_assoc,
        List.cons_append, peekU16, getU16_encodeLE, Option.map_some]
  | creature c =>
      rw [addThing, addCreature]
      split
      · refine ⟨0x62, ?_, by decide⟩
        simp only [List.cons_append, allData_cons, data, List.append_assoc, peekU16, getU16_known,
          Option.map_some]
      · refine ⟨0x61, ?_, by decide⟩
        simp only [List.cons_append, allData_cons, data, List.append_assoc, peekU16,
          getU16_unknown, Option.map_some]

end Infernum.MapDescription
