import Mathlib.Data.List.InsertIdx
import Mathlib.Data.List.Nodup
import Mathlib.Tactic.Common

/-!
# Pages of a list and keyed messages

`page l i n` is what a window of `n` places shows of a list from place `i` on. Each edit
of the list is an edit of the page, given the one entry that slides in. Messages that
carry a key change what is held under the key and nothing else.
-/

namespace Infernum.Lib

section Page

variable {α : Type*} (l : List α) (i n : Nat)

/-- The entries of `l` at the places `i` to `i + n - 1`. -/
def page : List α := (l.drop i).take n

@[simp] theorem length_page : (page l i n).length = min n (l.length - i) := by
  simp [page]

theorem getElem?_page (j : Nat) : (page l i n)[j]? = if j < n then l[i + j]? else none := by
  rw [page, List.getElem?_take, List.getElem?_drop]

theorem page_eq_nil (hi : l.length ≤ i) : page l i n = [] := by
  simp [page, List.drop_eq_nil_of_le hi]

/-- An entry in front of the list: every page gets the entry that is now at its first
place, and loses its last one. -/
theorem page_cons (x : α) : page (x :: l) i n = ((x :: l)[i]?.toList ++ page l i n).take n := by
  cases i with
  | zero =>
      show (x :: l).take n = (x :: l.take n).take n
      cases n <;> simp [List.take_take]
  | succ i =>
      show (l.drop i).take n = (l[i]?.toList ++ (l.drop (i + 1)).take n).take n
      by_cases hi : i < l.length
      · rw [List.getElem?_eq_getElem hi]
        have hdrop := List.drop_eq_getElem_cons hi
        generalize l.drop (i + 1) = rest at hdrop
        rw [hdrop]
        cases n <;> simp [List.take_take]
      · rw [List.drop_eq_nil_of_le (by omega), List.drop_eq_nil_of_le (by omega),
          List.getElem?_eq_none (by omega)]
        simp

/-- An entry behind a list that fills the page is not shown. -/
theorem page_append_of_le (x : α) (hfull : i + n ≤ l.length) :
    page (l ++ [x]) i n = page l i n := by
  rw [page, page, List.drop_append_of_le_length (by omega),
    List.take_append_of_le_length (by simp; omega)]

/-- An entry behind a list that ends in the page is shown last. -/
theorem page_append_of_lt (x : α) (hi : i ≤ l.length) (hlast : l.length < i + n) :
    page (l ++ [x]) i n = page l i n ++ [x] := by
  rw [page, page, List.drop_append_of_le_length hi, List.take_of_length_le (by simp; omega),
    List.take_of_length_le (by simp; omega)]

theorem page_set (k : Nat) (x : α) :
    page (l.set k x) i n = if k < i then page l i n else (page l i n).set (k - i) x := by
  rw [page, List.drop_set]
  split
  · rfl
  · rw [List.take_set]
    rfl

theorem drop_eraseIdx (k : Nat) : (l.eraseIdx k).drop i = (l.drop i).eraseIdx (k - i) := by
  induction i generalizing l k with
  | zero => simp
  | succ i ih =>
      cases l with
      | nil => simp
      | cons x l =>
          cases k with
          | zero => simp
          | succ k =>
              rw [List.eraseIdx_cons_succ, List.drop_succ_cons, List.drop_succ_cons, ih,
                Nat.add_sub_add_right]

theorem take_eraseIdx (k : Nat) (hk : k < n) :
    (l.eraseIdx k).take n = (l.take n).eraseIdx k ++ l[n]?.toList := by
  induction l generalizing k n with
  | nil => simp
  | cons x l ih =>
      obtain ⟨n, rfl⟩ : ∃ m, n = m + 1 := ⟨n - 1, by omega⟩
      cases k with
      | zero =>
          show l.take (n + 1) = l.take n ++ l[n]?.toList
          rw [List.take_add_one]
      | succ k =>
          show x :: (l.eraseIdx k).take n = x :: ((l.take n).eraseIdx k ++ l[n]?.toList)
          rw [ih n k (by omega)]

variable {l} in
/-- An entry that is put to its own place once more is not seen up to there. -/
theorem take_insertIdx {k : Nat} {x : α} (hx : l[k]? = some x) :
    (l.insertIdx k x).take (k + 1) = l.take (k + 1) := by
  induction k generalizing l with
  | zero =>
      cases l with
      | nil => cases hx
      | cons y l =>
          obtain rfl : y = x := by simpa using hx
          rfl
  | succ k ih =>
      cases l with
      | nil => cases hx
      | cons y l => rw [List.insertIdx_succ_cons, List.take_succ_cons, ih (by simpa using hx),
          List.take_succ_cons]

/-- An entry out of the list: a page that it was on or behind loses the entry at its
place, or its first one, and gets the one that followed the page. -/
theorem page_eraseIdx (k : Nat) (hn : 0 < n) (hin : k < i + n) :
    page (l.eraseIdx k) i n = (page l i n).eraseIdx (k - i) ++ l[i + n]?.toList := by
  rw [page, drop_eraseIdx, take_eraseIdx _ _ _ (by omega), List.getElem?_drop]
  rfl

/-- A page in front of the entry stays. -/
theorem page_eraseIdx_of_le (k : Nat) (hout : i + n ≤ k) :
    page (l.eraseIdx k) i n = page l i n := by
  apply List.ext_getElem?
  intro j
  rw [getElem?_page, getElem?_page]
  by_cases hj : j < n
  · rw [List.getElem?_eraseIdx_of_lt (by omega)]
  · simp [hj]

end Page

section Keyed

variable {κ μ σ β : Type*} [DecidableEq κ] (key : μ → κ) (change : μ → σ → σ)

/-- A message changes what is held under its key. -/
def receive (s : κ → σ) (m : μ) : κ → σ := Function.update s (key m) (change m (s (key m)))

theorem foldl_receive (ms : List μ) (s : κ → σ) (k : κ) :
    ms.foldl (receive key change) s k =
      (ms.filter fun m => key m = k).foldl (fun p m => change m p) (s k) := by
  induction ms generalizing s with
  | nil => rfl
  | cons m ms ih =>
      rw [List.foldl_cons, ih, receive]
      by_cases hm : key m = k
      · simp [hm]
      · simp [hm, Function.update_of_ne (Ne.symm hm)]

theorem foldl_receive_of_ne {ms : List μ} {k : κ} (hms : ∀ m ∈ ms, key m ≠ k) (s : κ → σ) :
    ms.foldl (receive key change) s k = s k := by
  rw [foldl_receive, List.filter_eq_nil_iff.mpr (by simpa using hms)]
  rfl

/-- Of messages sent for distinct keys, a key gets the ones sent for it. -/
theorem filter_flatMap {ws : List β} {f : β → List μ} {k : β → κ}
    (hkey : ∀ e ∈ ws, ∀ m ∈ f e, key m = k e) (hws : (ws.map k).Nodup) {e : β} (he : e ∈ ws) :
    (ws.flatMap f).filter (fun m => key m = k e) = f e := by
  induction ws with
  | nil => cases he
  | cons e' ws ih =>
      obtain ⟨hne, hws⟩ := List.nodup_cons.mp hws
      have htail := ih (fun e he => hkey e (List.mem_cons_of_mem _ he)) hws
      rw [List.flatMap_cons, List.filter_append]
      rcases List.mem_cons.mp he with rfl | he
      · have hrest : (ws.flatMap f).filter (fun m => key m = k e) = [] := by
          rw [List.filter_eq_nil_iff]
          intro m hm
          obtain ⟨e', he', hm⟩ := List.mem_flatMap.mp hm
          rw [hkey e' (List.mem_cons_of_mem _ he') m hm]
          intro heq
          exact hne (List.mem_map.mpr ⟨e', he', by simpa using heq⟩)
        rw [hrest, List.append_nil, List.filter_eq_self.mpr]
        intro m hm
        simpa using hkey e List.mem_cons_self m hm
      · have hhead : (f e').filter (fun m => key m = k e) = [] := by
          rw [List.filter_eq_nil_iff]
          intro m hm
          rw [hkey e' List.mem_cons_self m hm]
          intro heq
          exact hne (List.mem_map.mpr ⟨e, he, by simpa using (of_decide_eq_true heq).symm⟩)
        rw [hhead, List.nil_append, htail he]

/-- What a key holds after messages sent for distinct keys. -/
theorem foldl_receive_flatMap {ws : List β} {f : β → List μ} {k : β → κ}
    (hkey : ∀ e ∈ ws, ∀ m ∈ f e, key m = k e) (hws : (ws.map k).Nodup) {e : β} (he : e ∈ ws)
    (s : κ → σ) :
    (ws.flatMap f).foldl (receive key change) s (k e) =
      (f e).foldl (fun p m => change m p) (s (k e)) := by
  rw [foldl_receive, filter_flatMap key hkey hws he]

end Keyed

end Infernum.Lib
