import Infernum.Map.Position
import Mathlib.Tactic.Ring

/-!
# Sight lines

`Map::checkSightLine` walks from one position to another along the line between them, with
the coefficients of the line in integer arithmetic, and then through the floors above.
Every turn of the walk goes one towards the destination, in x, in y or in both: that it
stays put would need two of the three distances it compares to be equal and not above the
third, which no line allows. A walk of as many turns as the positions are apart ends.
-/

namespace Infernum

/-- What a tile tells a sight line. -/
structure SightTile where
  /-- `hasProperty(CONST_PROP_BLOCKPROJECTILE)` -/
  blockProjectile : Bool
  getThingCount : Nat
  deriving DecidableEq, Repr

/-- What is set up before the loop of `checkSightLine`. -/
structure SightLine where
  destination : Position
  mx : Int
  my : Int
  A : Int
  B : Int
  C : Int
  deriving DecidableEq, Repr

namespace SightLine

/-- The direction in which one coordinate changes. -/
def towards (start destination : BitVec 16) : Int :=
  if start < destination then 1 else if start = destination then 0 else -1

def ofPositions (start destination : Position) : SightLine :=
  let A := destination.getY - start.getY
  let B := start.getX - destination.getX
  { destination
    mx := towards start.x destination.x
    my := towards start.y destination.y
    A
    B
    C := -(A * destination.getX + B * destination.getY) }

/-- The distance of a point from the line, up to a factor. -/
def move (line : SightLine) (x y : Int) : Nat :=
  (line.A * x + line.B * y + line.C).natAbs

/-- One turn of the loop of `checkSightLine`, up to the tile. -/
def step (line : SightLine) (start : Position) : Position :=
  let move_hor := line.move (start.getX + line.mx) start.getY
  let move_ver := line.move start.getX (start.getY + line.my)
  let move_cross := line.move (start.getX + line.mx) (start.getY + line.my)
  let start :=
    if start.y ≠ line.destination.y ∧
        (start.x = line.destination.x ∨ move_hor > move_ver ∨ move_hor > move_cross) then
      { start with y := start.y + BitVec.ofInt 16 line.my }
    else start
  -- the second test sees the y of the first
  if start.x ≠ line.destination.x ∧
      (start.y = line.destination.y ∨ move_ver > move_hor ∨ move_ver > move_cross) then
    { start with x := start.x + BitVec.ofInt 16 line.mx }
  else start

end SightLine

/-- A run of `checkSightLine`: the tiles it looks at on the way, those it looks at between
the floors, and what it returns. -/
structure SightRun where
  steps : List Position
  floors : List Position
  clear : Bool
  deriving DecidableEq, Repr

section

variable (getTile : Position → Option SightTile)

/-- The loop of `checkSightLine`, for so many turns at most: the tiles it looks at, and where
it ends unless a tile blocks it. -/
def sightLoop (line : SightLine) : Nat → Position → Option (List Position × Option Position)
  | fuel, start =>
      if ¬(start.x ≠ line.destination.x ∨ start.y ≠ line.destination.y) then
        some ([], some start)
      else
        match fuel with
        | 0 => none
        | fuel + 1 =>
            let start := line.step start
            if (getTile start).any (·.blockProjectile) then some ([start], none)
            else (sightLoop line fuel start).map fun rest => (start :: rest.1, rest.2)

/-- The jump between floors of `checkSightLine`. -/
def floorLoop (destination start : Position) : List Position × Bool :=
  if start.z = destination.z then ([], true)
  else if (getTile start).any fun tile => tile.getThingCount > 0 then ([start], false)
  else
    let rest := floorLoop destination { start with z := start.z + 1 }
    (start :: rest.1, rest.2)
termination_by (destination.z - start.z).toNat
decreasing_by bv_omega

/-- The end of the line on the higher floor, where the walk begins. -/
def sightStart (fromPos toPos : Position) : Position :=
  if fromPos.z > toPos.z then toPos else fromPos

def sightDestination (fromPos toPos : Position) : Position :=
  if fromPos.z > toPos.z then fromPos else toPos

/-- `Map::checkSightLine`, with a walk of so many turns at most. -/
def checkSightLine (fuel : Nat) (fromPos toPos : Position) : Option SightRun :=
  if fromPos = toPos then some ⟨[], [], true⟩
  else
    let start := sightStart fromPos toPos
    let destination := sightDestination fromPos toPos
    match sightLoop getTile (.ofPositions start destination) fuel start with
    | none => none
    | some (steps, none) => some ⟨steps, [], false⟩
    | some (steps, some start) =>
        let floors := floorLoop getTile destination start
        some ⟨steps, floors.1, floors.2⟩

/-- `Map::isSightClear`. -/
def isSightClear (fuel : Nat) (fromPos toPos : Position) (floorCheck : Bool) : Option Bool :=
  if floorCheck ∧ fromPos.z ≠ toPos.z then some false
  else
    match checkSightLine getTile fuel fromPos toPos with
    | none => none
    | some run =>
        if run.clear then some true
        else (checkSightLine getTile fuel toPos fromPos).map SightRun.clear

end

/-! ## Between two ends -/

section

variable {w : Nat} {c c' d e : BitVec w}

/-- On the way from one end to the other, ends included. -/
def Between (c e d : BitVec w) : Prop := c ≤ e ∧ e ≤ d ∨ d ≤ e ∧ e ≤ c

/-- One closer to the other end. -/
def Closer (e e' d : BitVec w) : Prop :=
  e.toNat < d.toNat ∧ e'.toNat = e.toNat + 1 ∨ d.toNat < e.toNat ∧ e'.toNat + 1 = e.toNat

theorem Between.left (c d : BitVec w) : Between c c d := by
  unfold Between
  bv_omega

theorem Between.right (c d : BitVec w) : Between c d d := by
  unfold Between
  bv_omega

theorem Between.symm (h : Between c e d) : Between d e c := Or.symm h

theorem Between.ne_of_ne (h : Between c e d) (hne : e ≠ d) : c ≠ d := by
  rintro rfl
  unfold Between at h
  bv_omega

/-- What is closer is still on the way. -/
theorem Between.closer {e' : BitVec w} (h : Between c e d) (hcloser : Closer e e' d) :
    Between c e' d := by
  unfold Between Closer at *
  bv_omega

end

/-- The direction towards the end leads one closer to it. -/
theorem SightLine.closer_towards {c e d : BitVec 16} (h : Between c e d) (hne : e ≠ d) :
    Closer e (e + BitVec.ofInt 16 (SightLine.towards c d)) d := by
  unfold Between Closer SightLine.towards at *
  split
  · bv_omega
  · split
    · bv_omega
    · bv_omega

/-! ## One turn -/

/-- One turn towards the destination: in x, in y or in both. -/
def Position.Closer (destination p p' : Position) : Prop :=
  p'.z = p.z ∧
    (Infernum.Closer p.x p'.x destination.x ∧ p'.y = p.y ∨
      p'.x = p.x ∧ Infernum.Closer p.y p'.y destination.y ∨
      Infernum.Closer p.x p'.x destination.x ∧ Infernum.Closer p.y p'.y destination.y)

namespace SightLine

/-- Two moves that change the distance from the line in opposite directions are not both at
least as good as the other one and as the two together. -/
theorem no_tie {a b : Int} (hab : 0 < a ∧ b < 0 ∨ a < 0 ∧ 0 < b) (g : Int) :
    (g + a).natAbs > (g + b).natAbs ∨ (g + a).natAbs > (g + a + b).natAbs ∨
      (g + b).natAbs > (g + a).natAbs ∨ (g + b).natAbs > (g + a + b).natAbs := by
  omega

/-- Of the three moves of a turn, one in x or in y is not the best. -/
theorem move_no_tie {start destination : Position} (hx : start.x ≠ destination.x)
    (hy : start.y ≠ destination.y) {line : SightLine} (hline : line = ofPositions start destination)
    (x y : Int) :
    line.move (x + line.mx) y > line.move x (y + line.my) ∨
      line.move (x + line.mx) y > line.move (x + line.mx) (y + line.my) ∨
      line.move x (y + line.my) > line.move (x + line.mx) y ∨
      line.move x (y + line.my) > line.move (x + line.mx) (y + line.my) := by
  -- x changes the distance by A, y by B, and these have the signs of the other coordinate
  have hsigns : 0 < line.A * line.mx ∧ line.B * line.my < 0 ∨
      line.A * line.mx < 0 ∧ 0 < line.B * line.my := by
    subst hline
    simp only [ofPositions, towards, Position.getX, Position.getY, if_neg hx, if_neg hy]
    split <;> split <;> bv_omega
  have htie := no_tie hsigns (line.A * x + line.B * y + line.C)
  have hhor : line.A * (x + line.mx) + line.B * y + line.C =
      line.A * x + line.B * y + line.C + line.A * line.mx := by ring
  have hver : line.A * x + line.B * (y + line.my) + line.C =
      line.A * x + line.B * y + line.C + line.B * line.my := by ring
  have hcross : line.A * (x + line.mx) + line.B * (y + line.my) + line.C =
      line.A * x + line.B * y + line.C + line.A * line.mx + line.B * line.my := by ring
  unfold move
  rw [hhor, hver, hcross]
  exact htie

/-- A turn on the way goes one closer to the destination. -/
theorem step_closer {start destination p : Position} (hx : Between start.x p.x destination.x)
    (hy : Between start.y p.y destination.y) (hne : p.x ≠ destination.x ∨ p.y ≠ destination.y) :
    Position.Closer destination p ((ofPositions start destination).step p) := by
  have hright := fun h => closer_towards hx h
  have hdown := fun h => closer_towards hy h
  have htie := fun hx' hy' => move_no_tie (hx.ne_of_ne hx') (hy.ne_of_ne hy') rfl p.getX p.getY
  have hdest : (ofPositions start destination).destination = destination := rfl
  simp only [step, hdest]
  generalize (ofPositions start destination).move _ p.getY = hor at htie ⊢
  generalize (ofPositions start destination).move p.getX _ = ver at htie ⊢
  generalize (ofPositions start destination).move _ _ = cross at htie ⊢
  by_cases hfirst : p.y ≠ destination.y ∧ (p.x = destination.x ∨ hor > ver ∨ hor > cross)
  · rw [if_pos hfirst]
    split
    · next hsecond => exact ⟨rfl, .inr (.inr ⟨hright hsecond.1, hdown hfirst.1⟩)⟩
    · exact ⟨rfl, .inr (.inl ⟨rfl, hdown hfirst.1⟩)⟩
  · rw [if_neg hfirst]
    have hsecond : p.x ≠ destination.x ∧ (p.y = destination.y ∨ ver > hor ∨ ver > cross) := by
      by_cases hy' : p.y = destination.y
      · exact ⟨hne.resolve_right fun h => h hy', .inl hy'⟩
      · -- y is not moved although it could: x is not there yet and the tie is broken for it
        have hno : ¬(p.x = destination.x ∨ hor > ver ∨ hor > cross) := fun h => hfirst ⟨hy', h⟩
        have hx' : p.x ≠ destination.x := fun h => hno (.inl h)
        rcases htie hx' hy' with h | h | h
        · exact absurd (.inr (.inl h)) hno
        · exact absurd (.inr (.inr h)) hno
        · exact ⟨hx', .inr h⟩
    rw [if_pos hsecond]
    exact ⟨rfl, .inl ⟨hright hsecond.1, rfl⟩⟩

end SightLine

/-! ## The whole walk -/

/-- |dx| + |dy|. -/
def sightSteps (p q : Position) : Nat := (p.getX - q.getX).natAbs + (p.getY - q.getY).natAbs

theorem sightSteps_comm (p q : Position) : sightSteps p q = sightSteps q p := by
  unfold sightSteps
  omega

theorem Position.Closer.sightSteps_lt {destination p p' : Position}
    (h : Closer destination p p') : sightSteps p' destination < sightSteps p destination := by
  obtain ⟨-, h⟩ := h
  unfold Infernum.Closer at h
  unfold sightSteps Position.getX Position.getY
  bv_omega

theorem sightSteps_pos {p q : Position} (h : p.x ≠ q.x ∨ p.y ≠ q.y) : 0 < sightSteps p q := by
  unfold sightSteps Position.getX Position.getY
  bv_omega

/-- Between two positions in every coordinate. -/
structure InBox (a b p : Position) : Prop where
  x : Between a.x p.x b.x
  y : Between a.y p.y b.y
  z : Between a.z p.z b.z

theorem InBox.symm {a b p : Position} (h : InBox a b p) : InBox b a p :=
  ⟨h.x.symm, h.y.symm, h.z.symm⟩

theorem InBox.closer {a b p p' : Position} (h : InBox a b p) (hcloser : Position.Closer b p p') :
    InBox a b p' := by
  obtain ⟨hz, ⟨hx, hy⟩ | ⟨hx, hy⟩ | ⟨hx, hy⟩⟩ := hcloser
  · exact ⟨h.x.closer hx, hy ▸ h.y, hz ▸ h.z⟩
  · exact ⟨hx ▸ h.x, h.y.closer hy, hz ▸ h.z⟩
  · exact ⟨h.x.closer hx, h.y.closer hy, hz ▸ h.z⟩

variable (getTile : Position → Option SightTile)

/-- The walk that has arrived is at the destination, on the floor it began on. -/
theorem arrived {p destination : Position}
    (hat : ¬(p.x ≠ destination.x ∨ p.y ≠ destination.y)) (q : Position) (hq : some p = some q) :
    q = ⟨destination.x, destination.y, p.z⟩ := by
  cases hq
  rw [not_or, not_not, not_not] at hat
  rw [← hat.1, ← hat.2]

/-- The walk from a place on the way: as many turns as it is away from the destination are
enough, each goes closer, and it ends above or below the destination. -/
theorem sightLoop_spec {start destination : Position} (fuel : Nat) {p : Position}
    (hbox : InBox start destination p) (hfuel : sightSteps p destination ≤ fuel) :
    ∃ steps out, sightLoop getTile (.ofPositions start destination) fuel p = some (steps, out) ∧
      steps.length ≤ sightSteps p destination ∧
      (p :: steps).IsChain (Position.Closer destination) ∧
      (∀ q ∈ steps, InBox start destination q) ∧
      ∀ q, out = some q → q = ⟨destination.x, destination.y, p.z⟩ := by
  have hdest : (SightLine.ofPositions start destination).destination = destination := rfl
  induction fuel generalizing p with
  | zero =>
      have hat : ¬(p.x ≠ destination.x ∨ p.y ≠ destination.y) :=
        fun h => absurd hfuel (Nat.not_le.mpr (sightSteps_pos h))
      rw [sightLoop, hdest, if_pos hat]
      exact ⟨[], some p, rfl, Nat.zero_le _, .singleton p, by simp, arrived hat⟩
  | succ fuel ih =>
      by_cases hat : p.x ≠ destination.x ∨ p.y ≠ destination.y
      · have hcloser := SightLine.step_closer hbox.x hbox.y hat
        have hlt := hcloser.sightSteps_lt
        have hbox' := hbox.closer hcloser
        rw [sightLoop, hdest, if_neg (not_not.mpr hat)]
        simp only
        split
        · -- the tile blocks
          refine ⟨_, none, rfl, ?_, .cons_cons hcloser (.singleton _), by simpa using hbox', by simp⟩
          simp only [List.length_singleton]
          omega
        · obtain ⟨steps, out, hloop, hlen, hchain, hsteps, hout⟩ := ih hbox' (by omega)
          refine ⟨_ :: steps, out, by rw [hloop]; rfl, ?_, .cons_cons hcloser hchain, ?_, ?_⟩
          · simp only [List.length_cons]
            omega
          · intro q hq
            rcases List.mem_cons.mp hq with rfl | hq
            · exact hbox'
            · exact hsteps q hq
          · intro q hq
            rw [hout q hq, hcloser.1]
      · rw [sightLoop, hdest, if_pos hat]
        exact ⟨[], some p, rfl, Nat.zero_le _, .singleton p, by simp, arrived hat⟩

/-- The jump up to a floor stays on its column. -/
theorem floorLoop_inBox {a destination p : Position} (hp : InBox a destination p)
    (hz : a.z ≤ destination.z) : ∀ q ∈ (floorLoop getTile destination p).1, InBox a destination q := by
  fun_induction floorLoop getTile destination p with
  | case1 p h => simp
  | case2 p h htile =>
      intro q hq
      rw [List.mem_singleton.mp hq]
      exact hp
  | case3 p h htile rest ih =>
      intro q hq
      rcases List.mem_cons.mp hq with rfl | hq
      · exact hp
      · refine ih ⟨hp.x, hp.y, ?_⟩ q hq
        have := hp.z
        unfold Between at this ⊢
        simp only
        bv_omega

theorem sightStart_z_le (fromPos toPos : Position) :
    (sightStart fromPos toPos).z ≤ (sightDestination fromPos toPos).z := by
  unfold sightStart sightDestination
  split <;> bv_omega

/-- The two ends, whichever comes first. -/
theorem inBox_sightStart {fromPos toPos p : Position}
    (h : InBox (sightStart fromPos toPos) (sightDestination fromPos toPos) p) :
    InBox fromPos toPos p := by
  unfold sightStart sightDestination at h
  split at h
  · exact h.symm
  · exact h

theorem sightSteps_sightStart (fromPos toPos : Position) :
    sightSteps (sightStart fromPos toPos) (sightDestination fromPos toPos) =
      sightSteps fromPos toPos := by
  unfold sightStart sightDestination
  split
  · exact sightSteps_comm toPos fromPos
  · rfl

/-- A sight line of enough turns ends; every turn goes closer, and everything it looks at is
between the two positions. -/
theorem checkSightLine_spec {fuel : Nat} (fromPos toPos : Position)
    (hfuel : sightSteps fromPos toPos ≤ fuel) :
    ∃ run, checkSightLine getTile fuel fromPos toPos = some run ∧
      run.steps.length ≤ sightSteps fromPos toPos ∧
      (sightStart fromPos toPos :: run.steps).IsChain
        (Position.Closer (sightDestination fromPos toPos)) ∧
      ∀ q ∈ run.steps ++ run.floors, InBox fromPos toPos q := by
  rw [checkSightLine]
  split
  · exact ⟨_, rfl, Nat.zero_le _, .singleton _, by simp⟩
  · have hstart : InBox (sightStart fromPos toPos) (sightDestination fromPos toPos)
        (sightStart fromPos toPos) := ⟨.left .., .left .., .left ..⟩
    rw [← sightSteps_sightStart] at hfuel ⊢
    obtain ⟨steps, out, hloop, hlen, hchain, hsteps, hout⟩ :=
      sightLoop_spec getTile fuel hstart hfuel
    simp only [hloop]
    cases out with
    | none => exact ⟨_, rfl, hlen, hchain, by simpa using fun q hq => inBox_sightStart (hsteps q hq)⟩
    | some p =>
        have hp : InBox (sightStart fromPos toPos) (sightDestination fromPos toPos) p := by
          rw [hout p rfl]
          exact ⟨.right .., .right .., .left ..⟩
        have hfloors := floorLoop_inBox getTile hp (sightStart_z_le fromPos toPos)
        refine ⟨_, rfl, hlen, hchain, fun q hq => inBox_sightStart ?_⟩
        rcases List.mem_append.mp hq with hq | hq
        · exact hsteps q hq
        · exact hfloors q hq

/-- Whether the sight is clear does not depend on who looks. -/
theorem isSightClear_comm {fuel : Nat} (fromPos toPos : Position)
    (hfuel : sightSteps fromPos toPos ≤ fuel) (floorCheck : Bool) :
    ∃ clear, isSightClear getTile fuel fromPos toPos floorCheck = some clear ∧
      isSightClear getTile fuel toPos fromPos floorCheck = some clear := by
  obtain ⟨there, hthere, -⟩ := checkSightLine_spec getTile fromPos toPos hfuel
  obtain ⟨back, hback, -⟩ := checkSightLine_spec getTile toPos fromPos
    (sightSteps_comm fromPos toPos ▸ hfuel)
  have hfloor : (floorCheck = true ∧ fromPos.z ≠ toPos.z) =
      (floorCheck = true ∧ toPos.z ≠ fromPos.z) := by
    rw [ne_comm]
  by_cases hcheck : floorCheck = true ∧ fromPos.z ≠ toPos.z
  · refine ⟨false, ?_, ?_⟩
    · rw [isSightClear, if_pos hcheck]
    · rw [isSightClear, if_pos (hfloor ▸ hcheck)]
  · refine ⟨there.clear || back.clear, ?_, ?_⟩
    · rw [isSightClear, if_neg hcheck, hthere, hback]
      cases ht : there.clear <;> simp [ht]
    · rw [isSightClear, if_neg (hfloor ▸ hcheck), hthere, hback]
      cases hb : back.clear <;> simp [hb]

/-- **Sight lines end.** However many turns the walk may make beyond |dx| + |dy|, it ends
within |dx| + |dy|, every turn goes one towards the destination in x, in y or in both,
everything it looks at is between the two positions, and looking back gives the same
answer. -/
theorem isSightClear_terminates (getTile : Position → Option SightTile)
    (fromPos toPos : Position) (more : Nat) :
    (∃ run, checkSightLine getTile (sightSteps fromPos toPos + more) fromPos toPos = some run ∧
      run.steps.length ≤ sightSteps fromPos toPos ∧
      (sightStart fromPos toPos :: run.steps).IsChain
        (Position.Closer (sightDestination fromPos toPos)) ∧
      ∀ q ∈ run.steps ++ run.floors, InBox fromPos toPos q) ∧
    ∀ floorCheck, ∃ clear,
      isSightClear getTile (sightSteps fromPos toPos + more) fromPos toPos floorCheck =
          some clear ∧
        isSightClear getTile (sightSteps toPos fromPos + more) toPos fromPos floorCheck =
          some clear := by
  have hfuel : sightSteps fromPos toPos ≤ sightSteps fromPos toPos + more := Nat.le_add_right ..
  refine ⟨checkSightLine_spec getTile fromPos toPos hfuel, fun floorCheck => ?_⟩
  rw [sightSteps_comm toPos fromPos]
  exact isSightClear_comm getTile fromPos toPos hfuel floorCheck

end Infernum
