import Infernum.Condition.Invariants
import Infernum.Speed.Rider

/-!
# What the speed is made of

The player's speed above the base is what the speed conditions in the list, the
items in the ability-enabled slots and the mount give, as long as items are taken
off as they were put on and no mount slows the player down.
-/

namespace Infernum

open Equip (Slot Var Worn Update Account Booked)
open Lib (held)

/-! ## The account of the speed -/

namespace Equip

/-- A call of `updateAbilityConditions` that keeps the account of the speed
straight. Equipping: the item lies in the slot, and its type has a de-equip event.
De-equipping: the slot has not been enabled again meanwhile, and the item gives
the speed that it gave when the slot was enabled. -/
def Update.SpeedBalanced (w : World) (u : Update) : Prop :=
  if u.equip then u.inSlot = true ∧ u.deEquipEvent = true
  else u.enabled u.slot = false ∧ u.now.bonus w .speed = u.worn.bonus w .speed

/-- The account of the speed, with what is not from items as its base. -/
def Account.speed (w : World) (base : BitVec 32) : Account w where
  balanced u := u.SpeedBalanced w
  straight s pending := Booked w .speed base s pending
  equipped := by
    intro u hb hu
    rwa [Update.SpeedBalanced, if_pos hu] at hb
  congr := by
    intro s s' pending h hvars _ habil hadded
    unfold Booked at h ⊢
    rw [hvars, habil, hadded]
    exact h
  equip h hoff worn := h.equip hoff worn
  disable h hon := h.disable hon
  takeBack := by
    intro s pending item slot worn h hb
    rw [Update.SpeedBalanced, if_neg (by simp [State.update])] at hb
    exact h.takeBack hb.1 hb.2

theorem Worn.bonus_speed (w : World) (it : Worn) :
    it.bonus w .speed = (it.value .speed).setWidth 32 := by
  have hnone : ∀ l : List (Var × BitVec 32), (∀ m ∈ l, m.1 ≠ .speed) →
      (l.filter fun m => m.1 = .speed) = [] := by
    intro l hl
    refine List.filter_eq_nil_iff.mpr fun m hm => ?_
    simpa using hl m hm
  have hskill : ∀ m ∈ it.skillModifiers true, m.1 ≠ .speed := by
    intro m hm
    obtain ⟨i, _, hi⟩ := List.mem_filterMap.mp hm
    split at hi
    · cases hi
    · cases hi
      nofun
  have hspecial : ∀ m ∈ it.specialSkillModifiers true, m.1 ≠ .speed := by
    intro m hm
    obtain ⟨i, _, hi⟩ := List.mem_filterMap.mp hm
    split at hi
    · cases hi
    · cases hi
      nofun
  have hflex : ∀ m ∈ it.flexModifiers true, m.1 ≠ .speed := by
    intro m hm
    unfold flexModifiers at hm
    split at hm
    · obtain ⟨v, hv, rfl⟩ := List.mem_map.mp hm
      unfold flexVars at hv
      rcases List.mem_append.mp hv with hv | hv
      · obtain ⟨i, _, rfl⟩ := List.mem_map.mp hv
        nofun
      · obtain ⟨i, _, rfl⟩ := List.mem_map.mp hv
        nofun
    · cases hm
  have hstat : ∀ m ∈ it.statModifiers true, m.1 ≠ .speed := by
    intro m hm
    obtain ⟨i, _, hi⟩ := List.mem_filterMap.mp hm
    split at hi
    · cases hi
    · split at hi
      · cases hi
      · cases hi
        nofun
  have hpercent : ∀ m ∈ it.percentModifiers w true, m.1 ≠ .speed := by
    intro m hm
    obtain ⟨i, _, hi⟩ := List.mem_filterMap.mp hm
    split at hi
    · cases hi
    · dsimp only at hi
      split at hi
      · cases hi
      · cases hi
        nofun
  unfold bonus modifiers
  rw [List.filter_append, List.filter_append, List.filter_append, List.filter_append,
    List.filter_append, hnone _ hskill, hnone _ hspecial, hnone _ hflex, hnone _ hstat,
    hnone _ hpercent]
  unfold speedModifiers
  dsimp only
  split
  · next hzero => rw [hzero]; rfl
  · simp

end Equip

namespace Rider

variable {w : Equip.World} {s s' : Rider}

/-- What the mount gives. -/
def mountSpeed (c : Creature) : BitVec 32 :=
  if c.isMounted then
    match c.getMountByID c.currentMount with
    | some mount => mount.speed
    | none => 0
  else 0

/-- What the player's speed has that comes neither from items nor from others. -/
def base (c : Creature) : BitVec 32 :=
  c.player.vars .speed - c.others .speed + mountSpeed c

/-- The invariant: everything that has been added to the speed is accounted for. -/
structure Straight (w : Equip.World) (s : Rider) : Prop where
  conditions : s.creature.Inv
  unbooked : s.creature.unbooked .speed = 0
  items : (Account.speed w (base s.creature)).Inv s.gear [] none
  calls : ∀ u ∈ s.updates, u.SpeedBalanced w
  mounted : s.creature.isMounted = true →
    ∃ mount, s.creature.getMountByID s.creature.currentMount = some mount ∧ 0 ≤ mount.speed.toInt

/-- What items have given, by the account. -/
theorem Straight.others_speed (h : Straight w s) :
    s.creature.others .speed - mountSpeed s.creature =
      held s.creature.player.inventoryAbilities s.added fun it => it.bonus w .speed := by
  have hbooked : s.creature.player.vars .speed = base s.creature +
      (held s.creature.player.inventoryAbilities s.added (fun it => it.bonus w .speed) + 0) :=
    h.items.straight
  rw [base, add_zero] at hbooked
  have hsolve : ∀ vars others mount items : BitVec 32, vars = vars - others + mount + items →
      others - mount = items := by
    intro vars others mount items heq
    have hzero : vars - others + mount + items - vars = 0 := by rw [← heq, sub_self]
    have hrest : vars - others + mount + items - vars = items - (others - mount) := by abel
    rw [hrest] at hzero
    exact (sub_eq_zero.mp hzero).symm
  exact hsolve _ _ _ _ hbooked

/-- A step that leaves the equipment alone. -/
theorem Straight.of_creature (h : Straight w s) {c : Creature} (hinv : c.Inv)
    (hunbooked : c.unbooked .speed = s.creature.unbooked .speed)
    (hinventory : c.player.inventory = s.creature.player.inventory)
    (habilities : c.player.inventoryAbilities = s.creature.player.inventoryAbilities)
    (hothers : c.others .speed - mountSpeed c =
      s.creature.others .speed - mountSpeed s.creature)
    (hmounted : c.isMounted = true →
      ∃ mount, c.getMountByID c.currentMount = some mount ∧ 0 ≤ mount.speed.toInt)
    (lastToggleMount : Int) (wasMounted : Bool) :
    Straight w { s with
      creature := c, lastToggleMount := lastToggleMount, wasMounted := wasMounted } := by
  refine ⟨hinv, hunbooked.trans h.unbooked, ⟨?_, ?_, ?_, h.items.elsewhere, ?_⟩, h.calls, hmounted⟩
  · show c.player.vars .speed = base c + (held c.player.inventoryAbilities s.added _ + 0)
    rw [habilities, ← h.others_speed, ← hothers, base]
    abel
  · intro slot slot' item
    show c.player.inventory slot = _ → c.player.inventory slot' = _ → _
    rw [hinventory]
    exact h.items.apart slot slot' item
  · intro slot item
    show c.player.inventory slot = _ → _
    rw [hinventory]
    exact h.items.allocated slot item
  · intro slot hon hne
    have hon' : s.creature.player.inventoryAbilities slot = true := by
      rw [← habilities]
      exact hon
    obtain ⟨item, hslot, hwears⟩ := h.items.wears slot hon' hne
    exact ⟨item, by rw [← hslot]; exact congrFun hinventory slot, hwears⟩

/-! ## Conditions -/

/-- A mount that does not slow down costs what it gave. -/
theorem dismountSpeed_eq {c : Creature} (hmounted : c.isMounted = true)
    (h : c.isMounted = true →
      ∃ mount, c.getMountByID c.currentMount = some mount ∧ 0 ≤ mount.speed.toInt) :
    c.dismountSpeed = mountSpeed c := by
  obtain ⟨mount, hmount, hspeed⟩ := h hmounted
  rw [Creature.dismountSpeed, mountSpeed, if_pos hmounted, hmount]
  dsimp only
  split
  · rfl
  · next hle =>
    have hzero : mount.speed.toInt = 0 := by omega
    exact (BitVec.eq_of_toInt_eq (by rw [hzero]; rfl)).symm

theorem mountSpeed_of_not {c : Creature} (h : c.isMounted = false) : mountSpeed c = 0 := by
  rw [mountSpeed, if_neg (by rw [h]; exact Bool.false_ne_true)]

theorem mountSpeed_congr {c c' : Creature} (hmounted : c'.isMounted = c.isMounted)
    (hmounts : c'.mounts = c.mounts) (hcurrent : c'.currentMount = c.currentMount) :
    mountSpeed c' = mountSpeed c := by
  rw [mountSpeed, mountSpeed, Creature.getMountByID, Creature.getMountByID, hmounted, hmounts,
    hcurrent]

/-- Whatever conditions do, a player who rides may only dismount by it. -/
theorem Straight.condition (h : Straight w s) {c : Creature}
    (hmoves : Creature.Moves (fun _ _ => True) s.creature c) :
    Straight w { s with creature := c } := by
  have hkept := hmoves.kept
  have hgear := hkept.gear
  refine h.of_creature (Creature.Moves.inv hmoves h.conditions) (hkept.unbooked .speed)
    hgear.inventory hgear.inventoryAbilities ?_ ?_ s.lastToggleMount s.wasMounted
  · rcases hkept.riding with ⟨hmounted, hothers⟩ | ⟨hmounted, hdismounted, hothers⟩
    · rw [hothers, mountSpeed_congr hmounted hgear.mounts hgear.currentMount]
    · rw [hothers, Function.update_self, mountSpeed_of_not hdismounted,
        dismountSpeed_eq hmounted h.mounted]
      abel
  · intro hon
    rcases hkept.riding with ⟨hmounted, _⟩ | ⟨_, hdismounted, _⟩
    · obtain ⟨mount, hmount, hspeed⟩ := h.mounted (hmounted ▸ hon)
      refine ⟨mount, ?_, hspeed⟩
      rw [Creature.getMountByID, hgear.mounts, hgear.currentMount]
      exact hmount
    · rw [hdismounted] at hon
      cases hon

/-! ## Equipment -/

/-- What a step of the equipment has changed of the variables is booked as others'. -/
theorem Straight.equipment (h : Straight w s) {fuel : Nat} {op : Equip.Op} {g : Equip.State}
    (happly : Equip.apply w fuel s.gear op = some g)
    (hcalls : ∀ u ∈ g.updates, u.SpeedBalanced w) : Straight w (s.setGear g) := by
  have hsame : (s.setGear g).creature.player.vars .speed - (s.setGear g).creature.others .speed =
      s.creature.player.vars .speed - s.creature.others .speed := by
    show g.player.vars .speed - (s.creature.others .speed +
      (g.player.vars .speed - s.creature.player.vars .speed)) = _
    abel
  have hbase : base (s.setGear g).creature = base s.creature := congrArg (· + _) hsame
  refine ⟨⟨h.conditions.apart, h.conditions.allocated, h.conditions.unique, h.conditions.unstarted,
    h.conditions.logged, h.conditions.fits⟩, ?_, ?_, hcalls, h.mounted⟩
  · rw [Creature.unbooked, hsame]
    exact h.unbooked
  · rw [hbase]
    exact Equip.apply_inv happly hcalls h.items

/-! ## Mounts -/

/-- The mount is changed, and the speed with it by an amount that is booked as others'. -/
structure Shifted (c c' : Creature) (delta : BitVec 32) : Prop where
  isPlayer : c'.isPlayer = c.isPlayer
  next : c'.next = c.next
  pending : c'.pending = c.pending
  inventory : c'.player.inventory = c.player.inventory
  inventoryAbilities : c'.player.inventoryAbilities = c.player.inventoryAbilities
  condition : c'.condition = c.condition
  view : c'.view = c.view
  vars : c'.player.vars .speed = c.player.vars .speed + delta
  others : c'.others .speed = c.others .speed + delta

theorem Shifted.trans {c c' c'' : Creature} {delta delta' : BitVec 32} (h : Shifted c c' delta)
    (h' : Shifted c' c'' delta') : Shifted c c'' (delta + delta') where
  isPlayer := h'.isPlayer.trans h.isPlayer
  next := h'.next.trans h.next
  pending := h'.pending.trans h.pending
  inventory := h'.inventory.trans h.inventory
  inventoryAbilities := h'.inventoryAbilities.trans h.inventoryAbilities
  condition := h'.condition.trans h.condition
  view := h'.view.trans h.view
  vars := by rw [h'.vars, h.vars, add_assoc]
  others := by rw [h'.others, h.others, add_assoc]

theorem Shifted.then {c c' c'' : Creature} {delta : BitVec 32} (h : Shifted c c' delta)
    (h' : Shifted c' c'' 0) : Shifted c c'' delta := by
  have htrans := h.trans h'
  rwa [add_zero] at htrans

/-- The steps that change no speed. -/
theorem shifted_zero {c c' : Creature} (hframe : (c'.isPlayer, c'.next, c'.pending) =
      (c.isPlayer, c.next, c.pending)) (hplayer : c'.player = c.player)
    (hcondition : c'.condition = c.condition) (hview : c'.view = c.view)
    (hothers : c'.others = c.others) : Shifted c c' 0 := by
  obtain ⟨hisPlayer, hrest⟩ := Prod.mk.inj hframe
  obtain ⟨hnext, hpending⟩ := Prod.mk.inj hrest
  refine ⟨hisPlayer, hnext, hpending, by rw [hplayer], by rw [hplayer], hcondition, hview, ?_, ?_⟩
  · rw [hplayer, add_zero]
  · rw [hothers, add_zero]

theorem shifted_changeOutfit (env : Env) (c : Creature) (outfit : Outfit) :
    Shifted c (c.changeOutfit env outfit) 0 := by
  unfold Creature.changeOutfit
  split
  · exact shifted_zero rfl rfl rfl rfl rfl
  · exact shifted_zero rfl rfl rfl rfl rfl

theorem shifted_changeMountSpeed (c : Creature) (delta : BitVec 32) :
    Shifted c (changeMountSpeed c delta) delta := by
  refine ⟨rfl, rfl, rfl, rfl, rfl, rfl, rfl, ?_, ?_⟩
  · show (c.changeSpeed delta).player.vars .speed = _
    rw [Creature.changeSpeed_vars, if_pos rfl]
  · show Function.update c.others .speed _ .speed = _
    exact Function.update_self ..

theorem shifted_dismount (c : Creature) : Shifted c c.dismount (-c.dismountSpeed) := by
  obtain ⟨hvars, hothers⟩ := c.dismount_spec
  obtain ⟨hframe, hcondition, hview⟩ := c.dismount_frame
  refine ⟨congrArg Creature.Frame.isPlayer hframe, congrArg Creature.Frame.next hframe,
    congrArg Creature.Frame.pending hframe, congrArg Creature.Frame.inventory hframe,
    congrArg Creature.Frame.inventoryAbilities hframe, hcondition, hview, ?_, ?_⟩
  · rw [hvars, Function.update_self, sub_eq_add_neg]
  · rw [hothers, Function.update_self, sub_eq_add_neg]

theorem shifted_wear (e : Stable) (c : Creature) (outfit : Outfit) : Shifted c (wear e c outfit) 0 := by
  unfold wear
  dsimp only
  split
  · have hworn : Shifted c { c with defaultOutfit := outfit } 0 := shifted_zero rfl rfl rfl rfl rfl
    split
    · exact hworn
    · exact hworn.then (shifted_changeOutfit ..)
  · exact shifted_zero rfl rfl rfl rfl rfl

/-- A step of the mount that keeps the account. -/
theorem Straight.shift (h : Straight w s) {c : Creature} {delta : BitVec 32}
    (hshift : Shifted s.creature c delta) (hspeed : mountSpeed c = mountSpeed s.creature + delta)
    (hmounted : c.isMounted = true →
      ∃ mount, c.getMountByID c.currentMount = some mount ∧ 0 ≤ mount.speed.toInt)
    (lastToggleMount : Int) (wasMounted : Bool) :
    Straight w { s with
      creature := c, lastToggleMount := lastToggleMount, wasMounted := wasMounted } := by
  obtain ⟨hconditions, hcalls, _⟩ := Creature.view_eq hshift.view
  have hinv : c.Inv := by
    obtain ⟨hapart, hallocated, hunique, hunstarted, hlogged, hfits⟩ := h.conditions
    refine ⟨?_, ?_, ?_, ?_, ?_, ?_⟩
    · rw [hconditions, hshift.pending]
      exact hapart
    · rw [hconditions, hshift.pending, hshift.next]
      exact hallocated
    · rw [hconditions, hshift.condition]
      exact hunique
    · rw [hshift.pending, hcalls]
      exact hunstarted
    · rw [hcalls, hshift.next]
      exact hlogged
    · rw [hshift.pending, hshift.condition]
      exact hfits
  refine h.of_creature hinv ?_ hshift.inventory hshift.inventoryAbilities ?_ hmounted lastToggleMount
    wasMounted
  · rw [Creature.unbooked, Creature.unbooked, Creature.booked, Creature.booked, hshift.vars,
      hshift.others, hshift.isPlayer, hshift.condition, hconditions]
    dsimp only [Creature.view]
    abel
  · rw [hshift.others, hspeed]
    abel

/-- What the account knows of the mount. -/
def OnMount (c : Creature) : Prop :=
  c.isMounted = true →
    ∃ mount, c.getMountByID c.currentMount = some mount ∧ 0 ≤ mount.speed.toInt

/-- An outfit that is changed to the eye only. -/
theorem changeOutfit_mount (env : Env) (c : Creature) (outfit : Outfit) :
    mountSpeed (c.changeOutfit env outfit) = mountSpeed c ∧
      (c.changeOutfit env outfit).isMounted = c.isMounted ∧
      (OnMount c → OnMount (c.changeOutfit env outfit)) := by
  unfold Creature.changeOutfit
  split
  · exact ⟨rfl, rfl, id⟩
  · exact ⟨rfl, rfl, id⟩

/-- Dismounting takes back what the mount gave. -/
theorem dismount_mount {c : Creature} (hmounted : c.isMounted = true) (h : OnMount c) :
    mountSpeed c.dismount = mountSpeed c + -c.dismountSpeed ∧ OnMount c.dismount := by
  have hdismounted : c.dismount.isMounted = false :=
    congrArg Creature.Frame.isMounted c.dismount_frame.1
  refine ⟨?_, fun hon => ?_⟩
  · rw [mountSpeed_of_not hdismounted, dismountSpeed_eq hmounted h]
    abel
  · rw [hdismounted] at hon
    cases hon

/-- Mounting gives what the mount gives, unless the mount cannot be seen. -/
theorem mountUp_mount {c : Creature} {mount : Mount} (hmounted : c.isMounted = false)
    (hmount : c.getMountByID c.currentMount = some mount) (hspeed : 0 ≤ mount.speed.toInt)
    (hclient : mount.clientId ≠ 0 ∨ mount.speed = 0) :
    Shifted c (mountUp c mount) mount.speed ∧
      mountSpeed (mountUp c mount) = mountSpeed c + mount.speed ∧ OnMount (mountUp c mount) := by
  have hseen : (mountUp c mount).isMounted = (mount.clientId != 0) ∧
      (mountUp c mount).getMountByID (mountUp c mount).currentMount = some mount := by
    unfold mountUp
    dsimp only
    split
    · exact ⟨rfl, hmount⟩
    · exact ⟨rfl, hmount⟩
  refine ⟨?_, ?_, fun _ => ⟨mount, hseen.2, hspeed⟩⟩
  · have hlook : Shifted c { c with defaultOutfit := { c.defaultOutfit with
        lookMount := mount.clientId } } 0 := shifted_zero rfl rfl rfl rfl rfl
    unfold mountUp
    dsimp only
    split
    · have htrans := hlook.trans (shifted_changeMountSpeed _ mount.speed)
      rwa [zero_add] at htrans
    · next hzero =>
      rw [not_not.mp hzero]
      exact hlook
  · rw [mountSpeed_of_not hmounted, mountSpeed, hseen.1, hseen.2]
    dsimp only
    rcases hclient with hclient | hzero
    · rw [if_pos (bne_iff_ne.mpr hclient), zero_add]
    · rw [hzero]
      split <;> rfl

/-- What may be mounted without a trace. -/
def Mountable (mount : Mount) : Prop :=
  0 ≤ mount.speed.toInt ∧ (mount.clientId ≠ 0 ∨ mount.speed = 0)

theorem Straight.toggled (h : Straight w s) {c : Creature} {delta : BitVec 32} (e : Stable)
    (hshift : Shifted s.creature c delta) (hspeed : mountSpeed c = mountSpeed s.creature + delta)
    (hmounted : OnMount c) : Straight w (toggled e s c) := by
  obtain ⟨hsame, _, hon⟩ := changeOutfit_mount e.env c c.defaultOutfit
  exact h.shift (hshift.then (shifted_changeOutfit ..)) (hsame.trans hspeed) (hon hmounted)
    e.env.OTSYS_TIME s.wasMounted

/-- A player on foot chooses a mount, or none. -/
theorem setCurrentMount_mount {c : Creature} (hfoot : c.isMounted = false) (mountId : BitVec 8) :
    mountSpeed { c with currentMount := mountId } = mountSpeed c + 0 ∧
      OnMount { c with currentMount := mountId } := by
  refine ⟨?_, fun hon => ?_⟩
  · have hstill : Creature.isMounted { c with currentMount := mountId } = false := hfoot
    rw [mountSpeed_of_not hstill, mountSpeed_of_not hfoot, add_zero]
  · rw [show c.isMounted = true from hon] at hfoot
    cases hfoot

theorem Straight.setCurrentMount (h : Straight w s) (hfoot : s.creature.isMounted = false)
    (mountId : BitVec 8) :
    Straight w { s with creature := { s.creature with currentMount := mountId } } := by
  obtain ⟨hspeed, hon⟩ := setCurrentMount_mount hfoot mountId
  have hshift : Shifted s.creature { s.creature with currentMount := mountId } 0 :=
    shifted_zero rfl rfl rfl rfl rfl
  exact h.shift hshift hspeed hon s.lastToggleMount s.wasMounted

/-- A check that comes to nothing leaves the account straight. -/
theorem Straight.guard {c : Prop} [Decidable c] {s' : Rider} (h : Straight w s)
    (hpassed : ¬c → Straight w s') : Straight w (if c then s else s') := by
  split
  · exact h
  · next hnot => exact hpassed hnot

theorem Straight.toggleMount (h : Straight w s) (e : Stable) (mount : Bool)
    (hguard : mount = true → s.creature.isMounted = false →
      ∀ m, s.creature.getMountByID s.creature.currentMount = some m → Mountable m) :
    Straight w (s.toggleMount e mount) := by
  unfold Rider.toggleMount
  refine h.guard fun _ => ?_
  cases mount with
  | true =>
      rw [if_pos rfl]
      refine h.guard fun hfoot => ?_
      have hfoot : s.creature.isMounted = false := Bool.not_eq_true _ ▸ hfoot
      refine h.guard fun _ => ?_
      refine h.guard fun _ => ?_
      refine h.guard fun _ => ?_
      cases hcurrent : s.creature.getMountByID s.creature.currentMount with
      | none => exact h
      | some currentMount =>
          dsimp only
          split
          · exact h.setCurrentMount hfoot 0
          · refine h.guard fun _ => ?_
            refine h.guard fun _ => ?_
            obtain ⟨hspeed, hclient⟩ := hguard rfl hfoot currentMount hcurrent
            obtain ⟨hshift, hspeed', hon⟩ := mountUp_mount hfoot hcurrent hspeed hclient
            exact h.toggled e hshift hspeed' hon
  | false =>
      rw [if_neg Bool.false_ne_true]
      refine h.guard fun hmounted => ?_
      have hmounted : s.creature.isMounted = true := by simpa using hmounted
      obtain ⟨hspeed, hon⟩ := dismount_mount hmounted h.mounted
      exact h.toggled e (shifted_dismount _) hspeed hon

theorem Straight.untameMount (h : Straight w s) (env : Env) (mountId : BitVec 8) :
    Straight w (s.untameMount env mountId) := by
  unfold Rider.untameMount
  dsimp only
  split
  · exact h
  · split
    · by_cases hmounted : s.creature.isMounted = true
      · rw [if_pos hmounted]
        obtain ⟨hspeed, hon⟩ := dismount_mount hmounted h.mounted
        obtain ⟨hsame, hstill, hon'⟩ := changeOutfit_mount env s.creature.dismount
          s.creature.dismount.defaultOutfit
        have hdismounted := h.shift ((shifted_dismount _).then (shifted_changeOutfit env _ _))
          (hsame.trans hspeed) (hon' hon) s.lastToggleMount s.wasMounted
        have hfoot : s.creature.dismount.isMounted = false :=
          congrArg Creature.Frame.isMounted s.creature.dismount_frame.1
        exact hdismounted.setCurrentMount (hstill.trans hfoot) 0
      · rw [if_neg hmounted]
        exact h.setCurrentMount (Bool.not_eq_true _ ▸ hmounted) 0
    · exact h

theorem Straight.onChangeZone (h : Straight w s) (e : Stable) (protection : Bool)
    (hguard : protection = false → s.wasMounted = true → s.creature.isMounted = false →
      ∀ m, s.creature.getMountByID s.creature.currentMount = some m → Mountable m) :
    Straight w (s.onChangeZone e protection) := by
  unfold Rider.onChangeZone
  split
  · split
    · next hstop =>
      have hmounted : s.creature.isMounted = true := (Bool.and_eq_true_iff.mp hstop).2
      obtain ⟨hspeed, hon⟩ := dismount_mount hmounted h.mounted
      obtain ⟨hsame, _, hon'⟩ := changeOutfit_mount e.env s.creature.dismount
        s.creature.dismount.defaultOutfit
      exact h.shift ((shifted_dismount _).then (shifted_changeOutfit e.env _ _))
        (hsame.trans hspeed) (hon' hon) s.lastToggleMount true
    · exact h
  · next hprotection =>
    have hprotection : protection = false := Bool.not_eq_true _ ▸ hprotection
    split
    · next hwas =>
      have htoggled := h.toggleMount e true fun _ => hguard hprotection hwas
      exact htoggled.shift (shifted_zero rfl rfl rfl rfl rfl) (add_zero _).symm htoggled.mounted _ _
    · exact h

/-- An outfit that has a mount exactly if the player is mounted. -/
theorem wear_mount (e : Stable) {c : Creature} {o : Outfit}
    (hlook : (o.lookMount != 0) = c.isMounted) :
    mountSpeed (wear e c o) = mountSpeed c ∧ (OnMount c → OnMount (wear e c o)) := by
  have hworn : mountSpeed { c with defaultOutfit := o } = mountSpeed c ∧
      (OnMount c → OnMount { c with defaultOutfit := o }) :=
    ⟨mountSpeed_congr hlook rfl rfl, fun h hon => h (hlook.symm.trans hon)⟩
  unfold wear
  dsimp only
  split
  · split
    · exact hworn
    · obtain ⟨hsame, _, hon⟩ := changeOutfit_mount e.env { c with defaultOutfit := o } o
      exact ⟨hsame.trans hworn.1, fun h => hon (hworn.2 h)⟩
  · exact ⟨rfl, id⟩

/-- A mount whose id leads to a mount of the same speed may be changed to. -/
theorem changeMount_mount {c : Creature} {mount : Mount} (hmounted : c.isMounted = true)
    (h : OnMount c) (hmem : mount ∈ c.mounts) (hspeed : 0 ≤ mount.speed.toInt)
    (hsame : ∀ m, c.getMountByID mount.id = some m → m.speed = mount.speed) :
    ∃ delta, Shifted c (changeMount c mount) delta ∧
      mountSpeed (changeMount c mount) = mountSpeed c + delta ∧ OnMount (changeMount c mount) ∧
      (changeMount c mount).isMounted = true := by
  obtain ⟨prevMount, hprev, _⟩ := h hmounted
  have hfound : ∃ m, c.getMountByID mount.id = some m := by
    rw [← Option.isSome_iff_exists, Creature.getMountByID, List.find?_isSome]
    exact ⟨mount, hmem, beq_self_eq_true _⟩
  obtain ⟨m, hm⟩ := hfound
  refine ⟨mount.speed - prevMount.speed, ?_⟩
  unfold changeMount
  rw [hprev]
  dsimp only
  refine ⟨(shifted_changeMountSpeed c _).then (shifted_zero rfl rfl rfl rfl rfl), ?_, ?_, hmounted⟩
  · rw [mountSpeed, mountSpeed, if_pos hmounted, hprev]
    show (if c.isMounted then (match c.getMountByID mount.id with
      | some m => m.speed
      | none => 0) else 0) = _
    rw [if_pos hmounted, hm]
    show m.speed = prevMount.speed + (mount.speed - prevMount.speed)
    rw [hsame m hm]
    abel
  · intro _
    exact ⟨m, hm, by rw [hsame m hm]; exact hspeed⟩

theorem Straight.playerChangeOutfit (h : Straight w s) (e : Stable) (outfit : Outfit)
    (hguard : e.outfitKnown outfit.lookType = true → outfit.lookMount ≠ 0 →
      s.creature.isMounted = true → ∀ mount,
      getMountByClientID s.creature outfit.lookMount = some mount → e.hasMount mount = true →
      0 ≤ mount.speed.toInt ∧
        ∀ m, s.creature.getMountByID mount.id = some m → m.speed = mount.speed) :
    Straight w (s.playerChangeOutfit e outfit) := by
  unfold Rider.playerChangeOutfit
  dsimp only
  have hknown : (if e.outfitKnown outfit.lookType then outfit
      else { outfit with lookMount := 0 }).lookMount ≠ 0 →
      e.outfitKnown outfit.lookType = true := by
    intro hlook
    by_contra hunknown
    rw [if_neg hunknown] at hlook
    exact hlook rfl
  generalize houtfit : (if e.outfitKnown outfit.lookType then outfit
    else { outfit with lookMount := 0 }) = outfit' at hknown
  have hsame : outfit'.lookMount ≠ 0 → outfit = outfit' := by
    intro hlook
    rwa [if_pos (hknown hlook)] at houtfit
  split
  · next hlook =>
    split
    · exact h
    · next mount hmount =>
      split
      · exact h
      · next hhas =>
        have hhas : e.hasMount mount = true := by simpa using hhas
        split
        · next hmounted =>
          have hmount' : getMountByClientID s.creature outfit.lookMount = some mount := by
            rw [hsame hlook]
            exact hmount
          obtain ⟨hspeed, hids⟩ := hguard (hknown hlook) (by rwa [hsame hlook]) hmounted mount hmount'
            hhas
          obtain ⟨delta, hshift, hchanged, hon, hstill⟩ := changeMount_mount hmounted h.mounted
            (List.mem_of_find?_eq_some hmount) hspeed hids
          obtain ⟨hworn, hon'⟩ := wear_mount e (o := outfit')
            ((bne_iff_ne.mpr hlook).trans hstill.symm)
          exact h.shift (hshift.then (shifted_wear ..)) (hworn.trans hchanged) (hon' hon)
            s.lastToggleMount s.wasMounted
        · next hfoot =>
          have hfoot : s.creature.isMounted = false := Bool.not_eq_true _ ▸ hfoot
          obtain ⟨hchosen, hon⟩ := setCurrentMount_mount hfoot mount.id
          obtain ⟨hworn, hon'⟩ := wear_mount e (c := { s.creature with currentMount := mount.id })
            (o := { outfit' with lookMount := 0 }) hfoot.symm
          have hshift : Shifted s.creature { s.creature with currentMount := mount.id } 0 :=
            shifted_zero rfl rfl rfl rfl rfl
          exact h.shift (hshift.then (shifted_wear ..)) (hworn.trans hchosen) (hon' hon)
            s.lastToggleMount s.wasMounted
  · next hlook =>
    have hlook : (outfit'.lookMount != 0) = false := by simpa using hlook
    split
    · next hmounted =>
      obtain ⟨hspeed, hon⟩ := dismount_mount hmounted h.mounted
      have hfoot : s.creature.dismount.isMounted = false :=
        congrArg Creature.Frame.isMounted s.creature.dismount_frame.1
      obtain ⟨hworn, hon'⟩ := wear_mount e (hlook.trans hfoot.symm)
      exact h.shift ((shifted_dismount _).then (shifted_wear ..)) (hworn.trans hspeed) (hon' hon)
        s.lastToggleMount s.wasMounted
    · next hfoot =>
      have hfoot : s.creature.isMounted = false := Bool.not_eq_true _ ▸ hfoot
      obtain ⟨hworn, hon⟩ := wear_mount e (hlook.trans hfoot.symm)
      exact h.shift (shifted_wear ..) (hworn.trans (add_zero _).symm) (hon h.mounted)
        s.lastToggleMount s.wasMounted

theorem Straight.changeLevel (h : Straight w s) (level vocationSpeed : BitVec 32)
    (setMaxSpeed : Bool) : Straight w (s.changeLevel level vocationSpeed setMaxSpeed) := by
  have hshift : Shifted s.creature (s.changeLevel level vocationSpeed setMaxSpeed).creature 0 := by
    refine ⟨rfl, rfl, rfl, rfl, rfl, rfl, rfl, ?_, (add_zero _).symm⟩
    exact (Creature.changeSpeed_vars ..).trans (if_pos rfl)
  exact h.shift hshift (add_zero _).symm h.mounted s.lastToggleMount s.wasMounted

/-! ## Runs -/

/-- Steps that keep the account: items are taken off as they were put on, and the
mounts that the player mounts give some speed or none, can be seen, and have an id
of their own. -/
def Guard (w : Equip.World) (s : Rider) : Op → Prop
  | .equipment op => ∀ fuel g, Equip.apply w fuel s.gear op = some g →
      ∀ u ∈ g.updates, u.SpeedBalanced w
  | .toggleMount _ mount => mount = true → s.creature.isMounted = false →
      ∀ m, s.creature.getMountByID s.creature.currentMount = some m → Mountable m
  | .changeZone _ protection => protection = false → s.wasMounted = true →
      s.creature.isMounted = false →
      ∀ m, s.creature.getMountByID s.creature.currentMount = some m → Mountable m
  | .changeOutfit e outfit => e.outfitKnown outfit.lookType = true → outfit.lookMount ≠ 0 →
      s.creature.isMounted = true → ∀ mount,
      getMountByClientID s.creature outfit.lookMount = some mount → e.hasMount mount = true →
      0 ≤ mount.speed.toInt ∧
        ∀ m, s.creature.getMountByID mount.id = some m → m.speed = mount.speed
  | _ => True

theorem apply_straight {fuel : Nat} {op : Op} (h : Straight w s) (hguard : Guard w s op)
    (happly : apply w fuel s op = some s') : Straight w s' := by
  cases op with
  | condition op own =>
      obtain ⟨c, hrun, rfl⟩ := Option.map_eq_some_iff.mp happly
      exact h.condition (Creature.run_moves h.conditions own hrun)
  | equipment op =>
      obtain ⟨g, hg, rfl⟩ := Option.map_eq_some_iff.mp happly
      exact h.equipment hg (hguard fuel g hg)
  | toggleMount e mount =>
      cases happly
      exact h.toggleMount e mount hguard
  | untameMount env mountId =>
      cases happly
      exact h.untameMount env mountId
  | changeZone e protection =>
      cases happly
      exact h.onChangeZone e protection hguard
  | changeOutfit e outfit =>
      cases happly
      exact h.playerChangeOutfit e outfit hguard
  | changeLevel level vocationSpeed setMaxSpeed =>
      cases happly
      exact h.changeLevel level vocationSpeed setMaxSpeed

theorem start_straight (h : Start s) : Straight w s := by
  obtain ⟨hconditions, htasks, hcalls, hdefense, hflag, hothers⟩ := h.creature
  have hoff : ∀ slot, s.creature.player.inventoryAbilities slot = false := h.gear.enabled
  refine ⟨Creature.init_inv h.creature, ?_, ⟨?_, h.gear.apart, h.gear.allocated, h.gear.elsewhere, ?_⟩,
    ?_, ?_⟩
  · rw [Creature.unbooked, Creature.booked, hconditions, hothers]
    show _ - _ - (0 : BitVec 32) = 0
    rw [sub_self, sub_zero]
  · show s.creature.player.vars .speed =
      base s.creature + (held s.creature.player.inventoryAbilities s.added _ + 0)
    rw [base, mountSpeed_of_not h.onFoot, hothers, Lib.held_eq_zero hoff, sub_self]
    exact h.gear.vars .speed
  · intro slot hon
    rw [show s.gear.isItemAbilityEnabled slot = false from h.gear.enabled slot] at hon
    cases hon
  · intro u hu
    rw [show s.updates = [] from h.gear.updates] at hu
    cases hu
  · intro hon
    rw [h.onFoot] at hon
    cases hon

theorem straight_inductive (w : Equip.World) : (system w).Inductive (Guard w) (Straight w) where
  init _ hs := start_straight hs
  step _ _ _ h hguard hstep := by
    obtain ⟨fuel, happly⟩ := hstep
    exact apply_straight h hguard happly

/-- The conditions of speed in the list. -/
def speeds (c : Creature) : List ConditionSpeed :=
  c.conditions.filterMap fun r => (c.condition r).data.asSpeed

/-- The speed of the item in a slot. -/
def itemSpeed (w : Equip.World) (s : Rider) (slot : Slot) : BitVec 32 :=
  match s.creature.player.inventory slot with
  | some item => (Equip.getAbilityValue w (s.item item) .speed).setWidth 32
  | none => 0

/-- The speed above the base is that of the conditions in the list, of the items in
the ability-enabled slots and of the mount; without any of them it is the base. -/
theorem getSpeed_accounted (h : (system w).Reach (Guard w) s) :
    s.creature.getSpeed - s.creature.baseSpeed =
        ((speeds s.creature).map fun c => c.speedDelta).sum +
          (∑ slot, if s.creature.player.inventoryAbilities slot then s.itemSpeed w slot else 0) +
          mountSpeed s.creature ∧
      (speeds s.creature = [] →
        (∀ slot, s.creature.player.inventoryAbilities slot = false) →
        s.creature.isMounted = false → s.creature.getSpeed = s.creature.baseSpeed) := by
  have hs := (straight_inductive w).invariant h
  have hspeeds : s.creature.booked .speed =
      ((speeds s.creature).map fun c => c.speedDelta).sum :=
    Creature.booked_filterMap (g := ConditionData.asSpeed) fun c => by
      unfold Condition.contribution
      cases c.data <;> rfl
  have hitems : held s.creature.player.inventoryAbilities s.added (fun it => it.bonus w .speed) =
      ∑ slot, if s.creature.player.inventoryAbilities slot then s.itemSpeed w slot else 0 := by
    refine Finset.sum_congr rfl fun slot _ => ?_
    split
    · next hon =>
      obtain ⟨item, hslot, hvalue, _⟩ := hs.items.wears slot hon (by simp)
      show (s.added slot).bonus w .speed = _
      rw [Equip.Worn.bonus_speed, itemSpeed,
        show s.creature.player.inventory slot = some item from hslot]
      exact congrArg (BitVec.setWidth 32) (congrFun hvalue .speed).symm
    · rfl
  have haccount : s.creature.getSpeed - s.creature.baseSpeed =
      ((speeds s.creature).map fun c => c.speedDelta).sum +
        (∑ slot, if s.creature.player.inventoryAbilities slot then s.itemSpeed w slot else 0) +
        mountSpeed s.creature := by
    have hunbooked := hs.unbooked
    rw [Creature.unbooked, hspeeds] at hunbooked
    rw [← hitems, ← hs.others_speed, ← sub_eq_zero.mp hunbooked, Creature.getSpeed]
    abel
  refine ⟨haccount, fun hnone hoff hfoot => ?_⟩
  rw [hnone, mountSpeed_of_not hfoot,
    Finset.sum_eq_zero fun slot _ => by rw [hoff slot]; rfl] at haccount
  exact sub_eq_zero.mp (haccount.trans rfl)

/-! ## A mount -/

/-- A server on which everything about mounts is allowed. -/
def stable (time : Int) : Stable where
  env := { Creature.quietServer with OTSYS_TIME := time }
  access := false
  outfitKnown _ := true
  hasMount _ := true
  canWear _ _ := true

/-- A player with one mount, of some speed. -/
def onFoot (speed : BitVec 32) : Rider where
  creature := { Creature.newPlayer with
    mounts := [{ id := 1, clientId := 368, speed := speed, premium := false }]
    currentMount := 1 }
  item _ := { id := 0 }
  elsewhere _ := false
  added _ := ⟨fun _ => 0, 0, 0, 0, 0⟩

theorem start_onFoot (speed : BitVec 32) : Start (onFoot speed) where
  creature := ⟨rfl, rfl, rfl, rfl, rfl, rfl⟩
  gear :=
    { enabled := fun _ => rfl
      vars := fun _ => rfl
      suppressions := rfl
      apart := fun _ _ _ h => nomatch h
      allocated := fun _ _ h => nomatch h
      elsewhere := fun _ h => nomatch h
      updates := rfl }
  onFoot := rfl

/-- A haste that gives a speed of 40. -/
def haste : Condition :=
  .new CONDITIONID_COMBAT .haste 60000 true 0 (.speed { speedDelta := 40 })

/-- The player on the mount, and on foot again. -/
def riding (speed : BitVec 32) : Rider := (onFoot speed).toggleMount (stable 10000) true
def dismounted (speed : BitVec 32) : Rider := (riding speed).toggleMount (stable 20000) false

/-- A haste on a mount that gives a speed of 20. -/
theorem getSpeed_accounted_hasted :
    ∃ s, apply Equip.bootsWorld 1 (riding 20)
        (.condition (.addCondition Creature.quietServer haste rfl false) nofun) = some s ∧
      mountSpeed s.creature = 20 ∧
      s.creature.getSpeed - s.creature.baseSpeed =
        ((speeds s.creature).map fun c => c.speedDelta).sum +
          (∑ slot, if s.creature.player.inventoryAbilities slot then
            s.itemSpeed Equip.bootsWorld slot else 0) +
          mountSpeed s.creature := by
  have hriding : (system Equip.bootsWorld).Reach (Guard Equip.bootsWorld) (riding 20) := by
    refine .next (a := .toggleMount (stable 10000) true) (.start (start_onFoot 20)) ?_ ⟨0, rfl⟩
    intro _ _ m hm
    cases hm
    exact ⟨by decide, .inl (by decide)⟩
  have hhaste : apply Equip.bootsWorld 1 (riding 20)
      (.condition (.addCondition Creature.quietServer haste rfl false) nofun) = some _ := rfl
  have hguard : Guard Equip.bootsWorld (riding 20)
      (.condition (.addCondition Creature.quietServer haste rfl false) nofun) := trivial
  exact ⟨_, hhaste, by decide, (getSpeed_accounted (hriding.next hguard ⟨1, hhaste⟩)).1⟩

/-- A mount that slows down by 20 leaves the player slower by 20. -/
theorem slow_mount_stays : ¬∀ s, (system Equip.bootsWorld).Reachable s → speeds s.creature = [] →
    (∀ slot, s.creature.player.inventoryAbilities slot = false) → s.creature.isMounted = false →
    s.creature.getSpeed = s.creature.baseSpeed := by
  intro hclaim
  have hreach : (system Equip.bootsWorld).Reachable (dismounted (-20)) :=
    .next (a := .toggleMount (stable 20000) false) (.next (a := .toggleMount (stable 10000) true)
      (.start (start_onFoot (-20))) trivial ⟨0, rfl⟩) trivial ⟨0, rfl⟩
  have hspeed := hclaim _ hreach rfl (fun _ => rfl) (by decide)
  exact absurd hspeed (by decide)

end Rider

end Infernum
