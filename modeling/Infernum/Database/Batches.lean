import Infernum.Database.Database

/-!
# The statements of an insert as texts

`DBInsert` with the text it accumulates. The length that it counts leaves out the brackets and
commas between the rows, and the row that a flush has made room for: where a row joins the
others in between, the statement is longer than the largest packet.
-/

namespace Infernum.Database.Batches

abbrev Text := List UInt8

/-- The statements that were sent, and which of them the database takes. -/
structure Wire where
  sent : List Text
  takes : Nat → Bool

/-- `Database::executeQuery`. -/
def executeQuery (query : Text) (wire : Wire) : Bool × Wire :=
  (wire.takes wire.sent.length, { wire with sent := wire.sent ++ [query] })

/-- `DBInsert`. No text is so long that two of them would overflow `length`. -/
structure DBInsert where
  query : Text
  values : Text
  length : Nat

namespace DBInsert

/-- `DBInsert::DBInsert`. -/
def new (query : Text) : DBInsert := ⟨query, [], query.length⟩

/-- `DBInsert::execute`. -/
def execute (stmt : DBInsert) (wire : Wire) : Bool × DBInsert × Wire :=
  if stmt.values.isEmpty then (true, stmt, wire)
  else
    let r := executeQuery (stmt.query ++ stmt.values) wire
    (r.1, { stmt with values := [], length := stmt.query.length }, r.2)

/-- A row in round brackets. -/
def bracketed (row : Text) : Text := 40 :: row ++ [41]

/-- `values` with one more row, behind a comma unless it is the first. -/
def join (values row : Text) : Text :=
  if values.isEmpty then bracketed row else values ++ 44 :: bracketed row

/-- `DBInsert::addRow`. -/
def addRow (maxPacketSize : Nat) (row : Text) (stmt : DBInsert) (wire : Wire) :
    Bool × DBInsert × Wire :=
  let stmt := { stmt with length := stmt.length + row.length }
  let r := if maxPacketSize < stmt.length then stmt.execute wire else (true, stmt, wire)
  if r.1 then (true, { r.2.1 with values := join r.2.1.values row }, r.2.2)
  else (false, r.2.1, r.2.2)

end DBInsert

/-- Add rows one by one and execute at the end, giving up at the first error. -/
def insertRows (maxPacketSize : Nat) : List Text → DBInsert → Wire → Bool × Wire
  | [], stmt, wire =>
    let r := stmt.execute wire
    (r.1, r.2.2)
  | row :: rows, stmt, wire =>
    let r := stmt.addRow maxPacketSize row wire
    if r.1 then insertRows maxPacketSize rows r.2.1 r.2.2 else (false, r.2.2)

/-- What a fresh insert of all rows sends. -/
def sends (maxPacketSize : Nat) (takes : Nat → Bool) (query : Text) (rows : List Text) :
    List Text :=
  (insertRows maxPacketSize rows (.new query) ⟨[], takes⟩).2.sent

/-! ## What should be sent -/

/-- `values` with rows in it. -/
def valuesOf : List Text → Text
  | [] => []
  | row :: rows => DBInsert.bracketed row ++ rows.flatMap fun row => 44 :: DBInsert.bracketed row

/-- The statement for some rows. -/
def statement (query : Text) (rows : List Text) : Text := query ++ valuesOf rows

/-- The statements hold every row once, in order. -/
def Complete (query : Text) (rows : List Text) (sent : List Text) : Prop :=
  ∃ groups : List (List Text), groups.flatten = rows ∧ (∀ group ∈ groups, group ≠ []) ∧
    sent = groups.map (statement query)

/-- Wherever the counter lets a row join the rows that wait, the statement has room for it,
and the database takes what is sent to make room. `counted` is the length that is counted,
`length` that of the statement, `n` the number of the statement. -/
def Room (maxPacketSize : Nat) (takes : Nat → Bool) (query : Nat) (n counted length : Nat) :
    List Text → Prop
  | [] => True
  | row :: rows =>
    if maxPacketSize < counted + row.length then
      takes n = true ∧ Room maxPacketSize takes query (n + 1) query (query + row.length + 2) rows
    else
      length + row.length + 3 ≤ maxPacketSize ∧
        Room maxPacketSize takes query n (counted + row.length) (length + row.length + 3) rows

/-- `Room` from the first row on, which always fits. -/
def Roomy (maxPacketSize : Nat) (takes : Nat → Bool) (query : Text) : List Text → Prop
  | [] => True
  | row :: rows =>
    Room maxPacketSize takes query.length 0 (query.length + row.length)
      (query.length + row.length + 2) rows

instance decidableRoom (maxPacketSize : Nat) (takes : Nat → Bool) (query : Nat) :
    ∀ (n counted length : Nat) (rows : List Text),
      Decidable (Room maxPacketSize takes query n counted length rows)
  | _, _, _, [] => .isTrue trivial
  | n, counted, length, row :: rows =>
    have := decidableRoom maxPacketSize takes query (n + 1) query (query + row.length + 2) rows
    have := decidableRoom maxPacketSize takes query n (counted + row.length)
      (length + row.length + 3) rows
    inferInstanceAs (Decidable (if maxPacketSize < counted + row.length then _ ∧ _ else _ ∧ _))

instance (maxPacketSize : Nat) (takes : Nat → Bool) (query : Text) (rows : List Text) :
    Decidable (Roomy maxPacketSize takes query rows) :=
  match rows with
  | [] => .isTrue trivial
  | row :: rows =>
    inferInstanceAs (Decidable (Room maxPacketSize takes query.length 0
      (query.length + row.length) (query.length + row.length + 2) rows))

/-! ## The statements are the chunks -/

/-- An insert as the model of its rows has it. -/
def lengths (maxPacketSize : Nat) (query : Text) : InsertQuery Unit Text where
  queryLength := query.length
  rowLength := List.length
  maxPacketSize := maxPacketSize
  insert := fun _ s => s

/-- The text of an insert with rows that wait. -/
def texts (query : Text) (stmt : Database.DBInsert Text) : DBInsert :=
  ⟨query, valuesOf stmt.values, stmt.length⟩

/-- The statements up to the first that is not taken. -/
def delivered {α : Type} (takes : Nat → Bool) : Nat → List α → List α
  | _, [] => []
  | n, x :: xs => x :: if takes n then delivered takes (n + 1) xs else []

theorem valuesOf_isEmpty (rows : List Text) : (valuesOf rows).isEmpty = rows.isEmpty := by
  cases rows with
  | nil => rfl
  | cons row rows => rfl

theorem join_valuesOf (rows : List Text) (row : Text) :
    DBInsert.join (valuesOf rows) row = valuesOf (rows ++ [row]) := by
  rw [DBInsert.join, valuesOf_isEmpty]
  cases rows with
  | nil => simp [valuesOf]
  | cons first rows => simp [valuesOf]

theorem execute_texts (query : Text) (stmt : Database.DBInsert Text) (wire : Wire) :
    (texts query stmt).execute wire =
      if stmt.values.isEmpty then (true, texts query stmt, wire)
      else
        let r := executeQuery (statement query stmt.values) wire
        (r.1, texts query ⟨[], query.length⟩, r.2) := by
  rw [DBInsert.execute, texts, valuesOf_isEmpty]
  rfl

/-- A row joins the others, or is the first behind a flush. -/
theorem addRow_texts (maxPacketSize : Nat) (query row : Text) (stmt : Database.DBInsert Text)
    (wire : Wire) :
    (texts query stmt).addRow maxPacketSize row wire =
      if maxPacketSize < stmt.length + row.length ∧ ¬stmt.values.isEmpty then
        let r := executeQuery (statement query stmt.values) wire
        (r.1, texts query ⟨if r.1 then [row] else [], query.length⟩, r.2)
      else (true, texts query ⟨stmt.values ++ [row], stmt.length + row.length⟩, wire) := by
  have hexecute := execute_texts query ⟨stmt.values, stmt.length + row.length⟩ wire
  have hadd : (texts query stmt).addRow maxPacketSize row wire =
      let r := if maxPacketSize < stmt.length + row.length then
          (texts query ⟨stmt.values, stmt.length + row.length⟩).execute wire
        else (true, texts query ⟨stmt.values, stmt.length + row.length⟩, wire)
      if r.1 then (true, { r.2.1 with values := DBInsert.join r.2.1.values row }, r.2.2)
      else (false, r.2.1, r.2.2) := rfl
  have hjoin : ∀ st : Database.DBInsert Text,
      { texts query st with values := DBInsert.join (texts query st).values row } =
        texts query ⟨st.values ++ [row], st.length⟩ := by
    intro st
    rw [texts, texts, join_valuesOf]
  rw [hadd, hexecute]
  by_cases hlong : maxPacketSize < stmt.length + row.length
  · cases hempty : stmt.values.isEmpty with
    | true => simp [hlong, hjoin]
    | false =>
      cases htaken : (executeQuery (statement query stmt.values) wire).1 with
      | true => simp [hlong, htaken, hjoin]
      | false => simp [hlong, htaken]
  · simp [hlong, hjoin]

theorem sent_insertRows (maxPacketSize : Nat) (query : Text) (rows : List Text)
    (stmt : Database.DBInsert Text) (wire : Wire) :
    (insertRows maxPacketSize rows (texts query stmt) wire).2.sent =
      wire.sent ++ delivered wire.takes wire.sent.length
        ((chunks (lengths maxPacketSize query) rows stmt).map (statement query)) := by
  induction rows generalizing stmt wire with
  | nil =>
    rw [insertRows, execute_texts, chunks]
    cases hempty : stmt.values.isEmpty with
    | true => exact (List.append_nil _).symm
    | false => simp [delivered, executeQuery]
  | cons row rows ih =>
    rw [insertRows, addRow_texts, chunks]
    have hrow : (lengths maxPacketSize query).rowLength row = row.length := rfl
    by_cases hflush : maxPacketSize < stmt.length + row.length ∧ ¬stmt.values.isEmpty
    · -- a flush: what follows is only sent if the database takes it
      have hsent : (executeQuery (statement query stmt.values) wire).2.sent.length =
          wire.sent.length + 1 := List.length_append
      rw [if_pos hflush, hrow]
      rw [if_pos (show (lengths maxPacketSize query).maxPacketSize < _ ∧ _ from hflush)]
      rw [List.map_cons, delivered]
      cases htaken : wire.takes wire.sent.length with
      | true =>
        have htaken' : (executeQuery (statement query stmt.values) wire).1 = true := htaken
        simp only [htaken', if_true]
        rw [ih, hsent]
        show (wire.sent ++ [_]) ++ _ = _
        rw [List.append_assoc]
        rfl
      | false =>
        simp [htaken, executeQuery]
    · rw [if_neg hflush, hrow]
      rw [if_neg (show ¬((lengths maxPacketSize query).maxPacketSize < _ ∧ _) from hflush)]
      exact ih ⟨stmt.values ++ [row], stmt.length + row.length⟩ wire

/-! ## Nothing is missing -/

/-- The bytes of rows with their brackets and commas. -/
def weight (rows : List Text) : Nat := (rows.map fun row => row.length + 3).sum

@[simp] theorem weight_append (rows rows' : List Text) :
    weight (rows ++ rows') = weight rows + weight rows' := by
  simp [weight]

theorem weight_pos {rows : List Text} (h : rows ≠ []) : 0 < weight rows := by
  cases rows with
  | nil => exact absurd rfl h
  | cons row rows =>
    simp only [weight, List.map_cons, List.sum_cons]
    omega

theorem length_statement (query : Text) {rows : List Text} (h : rows ≠ []) :
    (statement query rows).length + 1 = query.length + weight rows := by
  cases rows with
  | nil => exact absurd rfl h
  | cons row rows =>
    have hrest : (rows.flatMap fun row => 44 :: DBInsert.bracketed row).length = weight rows := by
      rw [List.length_flatMap, weight]
      refine congrArg List.sum (List.map_congr_left fun row _ => ?_)
      simp [DBInsert.bracketed]
    have hfirst : weight (row :: rows) = row.length + 3 + weight rows := by simp [weight]
    rw [statement, valuesOf, List.length_append, List.length_append, hrest, hfirst]
    simp only [DBInsert.bracketed, List.length_append, List.length_cons, List.length_nil]
    omega

theorem length_statement_singleton (query row : Text) :
    (statement query [row]).length = query.length + row.length + 2 := by
  have h := length_statement query (List.cons_ne_nil row [])
  simp only [weight, List.map_cons, List.map_nil, List.sum_cons, List.sum_nil] at h
  omega

/-- The weight of all rows can be read off the lengths of the statements. -/
theorem sum_length_statements (query : Text) {groups : List (List Text)}
    (h : ∀ group ∈ groups, group ≠ []) :
    ((groups.map (statement query)).map fun text => text.length + 1 - query.length).sum =
      weight groups.flatten := by
  induction groups with
  | nil => rfl
  | cons group groups ih =>
    have hlength := length_statement query (h group List.mem_cons_self)
    rw [List.map_cons, List.map_cons, List.sum_cons, List.flatten_cons, weight_append, hlength,
      Nat.add_sub_cancel_left, ih fun group hgroup => h group (List.mem_cons_of_mem _ hgroup)]

theorem delivered_map {α β : Type} (f : α → β) (takes : Nat → Bool) (n : Nat) (xs : List α) :
    delivered takes n (xs.map f) = (delivered takes n xs).map f := by
  induction xs generalizing n with
  | nil => rfl
  | cons x xs ih =>
    rw [List.map_cons, delivered, delivered, List.map_cons, ih]
    cases takes n <;> rfl

theorem delivered_cons_iff {α : Type} (takes : Nat → Bool) (n : Nat) (x : α) {xs : List α}
    (hne : xs ≠ []) :
    delivered takes n (x :: xs) = x :: xs ↔
      takes n = true ∧ delivered takes (n + 1) xs = xs := by
  rw [delivered]
  cases takes n with
  | true => simp
  | false => simp [hne.symm]

theorem delivered_sublist {α : Type} (takes : Nat → Bool) (n : Nat) (xs : List α) :
    (delivered takes n xs).Sublist xs := by
  induction xs generalizing n with
  | nil => exact .slnil
  | cons x xs ih =>
    rw [delivered]
    split
    · exact (ih (n + 1)).cons_cons x
    · exact (List.nil_sublist xs).cons_cons x

/-- If not all is delivered, rows are missing. -/
theorem weight_delivered_lt (takes : Nat → Bool) (n : Nat) {groups : List (List Text)}
    (h : ∀ group ∈ groups, group ≠ []) (hne : delivered takes n groups ≠ groups) :
    weight (delivered takes n groups).flatten < weight groups.flatten := by
  induction groups generalizing n with
  | nil => exact absurd rfl hne
  | cons group groups ih =>
    have hrest : ∀ group ∈ groups, group ≠ [] :=
      fun group hgroup => h group (List.mem_cons_of_mem _ hgroup)
    rw [delivered] at hne ⊢
    rw [List.flatten_cons, List.flatten_cons, weight_append, weight_append]
    split at hne
    · next htaken =>
      rw [if_pos htaken]
      have hless := ih (n + 1) hrest fun heq => hne (by rw [heq])
      omega
    · next htaken =>
      rw [if_neg htaken]
      have hmore : groups ≠ [] := fun heq => hne (by rw [heq])
      have hpos : groups.flatten ≠ [] := by
        obtain ⟨first, groups', rfl⟩ := List.exists_cons_of_ne_nil hmore
        have hfirst := h first (List.mem_cons_of_mem _ List.mem_cons_self)
        simp [hfirst]
      have hless := weight_pos hpos
      simp only [List.flatten_nil]
      show weight group + 0 < _
      omega

/-- All rows are sent if and only if all chunks are. -/
theorem complete_iff (takes : Nat → Bool) (query : Text) {rows : List Text}
    {groups : List (List Text)} (hrows : groups.flatten = rows)
    (hne : ∀ group ∈ groups, group ≠ []) :
    Complete query rows (delivered takes 0 (groups.map (statement query))) ↔
      delivered takes 0 groups = groups := by
  rw [delivered_map]
  constructor
  · rintro ⟨groups', hrows', hne', hsent⟩
    by_contra hmissing
    have hless := weight_delivered_lt takes 0 hne hmissing
    have hdelivered : ∀ group ∈ delivered takes 0 groups, group ≠ [] :=
      fun group hgroup => hne group ((delivered_sublist takes 0 groups).mem hgroup)
    have hsame := sum_length_statements query hne'
    rw [← hsent, sum_length_statements query hdelivered, hrows', ← hrows] at hsame
    omega
  · intro hall
    rw [hall]
    exact ⟨groups, hrows, hne, rfl⟩

/-! ## The statements fit -/

/-- The rows that wait are the first ones of the next statement. -/
theorem chunks_cons (q : InsertQuery Unit Text) (rows : List Text) {waiting : List Text}
    (hwaiting : waiting ≠ []) (counted : Nat) :
    ∃ more rest, chunks q rows ⟨waiting, counted⟩ = (waiting ++ more) :: rest := by
  induction rows generalizing waiting counted with
  | nil =>
    refine ⟨[], [], ?_⟩
    rw [chunks, if_neg (by simpa using hwaiting), List.append_nil]
  | cons row rows ih =>
    rw [chunks]
    split
    · exact ⟨[], _, by rw [List.append_nil]⟩
    · obtain ⟨more, rest, h⟩ := ih (by simp : waiting ++ [row] ≠ [])
        (counted + q.rowLength row)
      exact ⟨row :: more, rest, by rw [h, List.append_assoc]; rfl⟩

/-- Room for the rest is what the rest needs: that all chunks fit and all are delivered. -/
theorem room_iff {maxPacketSize : Nat} {takes : Nat → Bool} {query : Text} {rows : List Text}
    (hrows : ∀ row ∈ rows, query.length + row.length + 2 ≤ maxPacketSize) {n counted : Nat}
    {waiting : List Text} (hwaiting : waiting ≠ [])
    (hfits : (statement query waiting).length ≤ maxPacketSize) :
    Room maxPacketSize takes query.length n counted (statement query waiting).length rows ↔
      delivered takes n (chunks (lengths maxPacketSize query) rows ⟨waiting, counted⟩) =
          chunks (lengths maxPacketSize query) rows ⟨waiting, counted⟩ ∧
        ∀ group ∈ chunks (lengths maxPacketSize query) rows ⟨waiting, counted⟩,
          (statement query group).length ≤ maxPacketSize := by
  induction rows generalizing n counted waiting with
  | nil =>
    rw [Room, chunks, if_neg (by simpa using hwaiting)]
    simp [delivered, hfits]
  | cons row rows ih =>
    have hrest : ∀ row ∈ rows, query.length + row.length + 2 ≤ maxPacketSize :=
      fun row hrow => hrows row (List.mem_cons_of_mem _ hrow)
    have hempty : waiting.isEmpty = false := by simpa using hwaiting
    rw [Room, chunks]
    show (if maxPacketSize < counted + row.length then _ else _) ↔ _
    by_cases hflush : maxPacketSize < counted + row.length
    · -- the rows that wait are sent, and the row waits alone
      have hrow := hrows row List.mem_cons_self
      have halone := length_statement_singleton query row
      have hnext := @ih hrest (n + 1) query.length [row] (List.cons_ne_nil _ _) (by omega)
      rw [halone] at hnext
      have hboth : (lengths maxPacketSize query).maxPacketSize <
          counted + (lengths maxPacketSize query).rowLength row ∧ ¬waiting.isEmpty = true :=
        ⟨hflush, by simp [hempty]⟩
      rw [if_pos hflush, if_pos hboth, hnext]
      obtain ⟨more, rest, hcons⟩ :=
        chunks_cons (lengths maxPacketSize query) rows (List.cons_ne_nil row []) query.length
      show _ ↔ delivered takes n (waiting :: chunks _ rows ⟨[row], query.length⟩) =
        waiting :: chunks _ rows ⟨[row], query.length⟩ ∧
          ∀ group ∈ waiting :: chunks _ rows ⟨[row], query.length⟩, _
      rw [delivered_cons_iff takes n waiting (by simp [hcons]), hcons]
      simp only [List.forall_mem_cons, hfits, true_and, and_assoc]
    · have hboth : ¬((lengths maxPacketSize query).maxPacketSize <
          counted + (lengths maxPacketSize query).rowLength row ∧ ¬waiting.isEmpty = true) :=
        fun h => hflush h.1
      rw [if_neg hflush, if_neg hboth]
      have hjoined : (statement query (waiting ++ [row])).length =
          (statement query waiting).length + row.length + 3 := by
        have h := length_statement query hwaiting
        have h' := length_statement query (by simp : waiting ++ [row] ≠ [])
        rw [weight_append] at h'
        simp only [weight, List.map_cons, List.map_nil, List.sum_cons, List.sum_nil] at h h'
        omega
      by_cases hroom : (statement query waiting).length + row.length + 3 ≤ maxPacketSize
      · have hnext := @ih hrest n (counted + row.length) (waiting ++ [row]) (by simp) (by omega)
        rw [hjoined] at hnext
        rw [hnext]
        exact ⟨fun h => h.2, fun h => ⟨hroom, h⟩⟩
      · -- the statement with the row in it is too long
        refine ⟨fun h => absurd h.1 hroom, fun h => ?_⟩
        obtain ⟨more, rest, hcons⟩ := chunks_cons (lengths maxPacketSize query) rows
          (by simp : waiting ++ [row] ≠ []) (counted + row.length)
        have hlong := h.2 (waiting ++ [row] ++ more) (by
          show _ ∈ chunks _ rows ⟨waiting ++ [row], counted + row.length⟩
          rw [hcons]
          exact List.mem_cons_self)
        have h' := length_statement query (by simp : waiting ++ [row] ++ more ≠ [])
        have h'' := length_statement query (by simp : waiting ++ [row] ≠ [])
        rw [weight_append] at h'
        omega

/-- **All rows are sent once, in order and in statements that fit, exactly if there is room
wherever the counter sees some and no flush fails.** -/
theorem sends_complete_iff (maxPacketSize : Nat) (takes : Nat → Bool) (query : Text)
    (rows : List Text)
    (hrows : ∀ row ∈ rows, query.length + row.length + 2 ≤ maxPacketSize) :
    (Complete query rows (sends maxPacketSize takes query rows) ∧
        ∀ text ∈ sends maxPacketSize takes query rows, text.length ≤ maxPacketSize) ↔
      Roomy maxPacketSize takes query rows := by
  have hsends : sends maxPacketSize takes query rows = delivered takes 0
      ((chunks (lengths maxPacketSize query) rows ⟨[], query.length⟩).map (statement query)) :=
    sent_insertRows maxPacketSize query rows ⟨[], query.length⟩ ⟨[], takes⟩
  have hflatten := chunks_flatten (lengths maxPacketSize query) rows ⟨[], query.length⟩
  have hne := chunks_ne_nil (lengths maxPacketSize query) rows ⟨[], query.length⟩
  rw [hsends, complete_iff takes query (hflatten.trans (List.nil_append rows)) hne, delivered_map]
  cases rows with
  | nil =>
    have hnone : chunks (lengths maxPacketSize query) [] ⟨[], query.length⟩ = [] := rfl
    rw [hnone]
    simp [delivered, Roomy]
  | cons row rows =>
    have hfirst := hrows row List.mem_cons_self
    have halone := length_statement_singleton query row
    have hroom := @room_iff maxPacketSize takes query rows
      (fun row hrow => hrows row (List.mem_cons_of_mem _ hrow)) 0 (query.length + row.length)
      [row] (List.cons_ne_nil _ _) (by omega)
    have hstart : chunks (lengths maxPacketSize query) (row :: rows) ⟨[], query.length⟩ =
        chunks (lengths maxPacketSize query) rows ⟨[row], query.length + row.length⟩ := by
      rw [chunks, if_neg (by simp)]
      rfl
    rw [Roomy, ← halone, hroom, hstart]
    refine and_congr_right fun hall => ?_
    rw [hall]
    simp

/-- Two statements: the last row joins the one that was flushed for. -/
theorem sends_complete_flush :
    Complete [81] [[1, 2, 3, 4, 5, 6, 7, 8], [1, 2, 3, 4, 5, 6, 7, 9], [10, 11]]
        (sends 16 (fun _ => true) [81]
          [[1, 2, 3, 4, 5, 6, 7, 8], [1, 2, 3, 4, 5, 6, 7, 9], [10, 11]]) ∧
      ∀ text ∈ sends 16 (fun _ => true) [81]
          [[1, 2, 3, 4, 5, 6, 7, 8], [1, 2, 3, 4, 5, 6, 7, 9], [10, 11]], text.length ≤ 16 :=
  (sends_complete_iff 16 (fun _ => true) [81]
    [[1, 2, 3, 4, 5, 6, 7, 8], [1, 2, 3, 4, 5, 6, 7, 9], [10, 11]] (by decide)).mpr (by decide)

/-- Two rows that fit one by one go into one statement that does not. -/
theorem sends_too_long :
    (∀ row ∈ [[1, 2, 3, 4], [5, 6, 7, 8]],
        ([81] : Text).length + List.length (row : Text) + 2 ≤ 10) ∧
      ¬∀ text ∈ sends 10 (fun _ => true) [81] [[1, 2, 3, 4], [5, 6, 7, 8]], text.length ≤ 10 := by
  decide

end Infernum.Database.Batches
