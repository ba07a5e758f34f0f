import Infernum.Container.Weight
import Infernum.Item.Reload

/-!
# Exact weights over whole runs

`updateItemWeight` brings the difference up to every container that holds the item,
unless a container on the way hides its parent; `clone` and `unserializeItemNode` make
exact trees. `totalWeight_of_reach` puts this together.
-/

namespace Infernum

open Lib

variable {w : WeightWorld}

namespace Content

/-! ## The way up -/

/-- No container on a path, the first one apart, hides its parent. -/
def Shown : List Nat → Content → Prop
  | [], _ => True
  | k :: path, t =>
      ∀ item, t.children[k]? = some item → hidesParent item = false ∧ Shown path item

/-- The container at the end of a path, with its items. -/
def Target (path : List Nat) (t : Content) (c : Container) (items : List Content) : Prop :=
  ∃ item, t.find path = some item ∧ item.container = some c ∧ item.items = items

theorem Target.cons {path : List Nat} {h : Holder} {items : List Content} {k : Nat} {item : Content}
    (hk : items[k]? = some item) {c : Container} {items' : List Content}
    (htarget : item.Target path c items') : Target (k :: path) (.node h items) c items' := by
  obtain ⟨t, hfind, ht⟩ := htarget
  refine ⟨t, ?_, ht⟩
  rw [find, hk]
  exact hfind

theorem getWeight_node (h : Holder) (items : List Content) {c : Container}
    (hc : h.container = some c) :
    getWeight w (.node h items) = h.object.getWeight w + c.totalWeight := by
  have hcontainer : container (.node h items) = some c := hc
  rw [getWeight, hcontainer]
  rfl

/-- A container that adds the difference of its items stays exact, and it gets heavier by
that difference. -/
theorem exact_update {h : Holder} {c : Container} (hc : h.container = some c)
    {items items' : List Content} {diff : BitVec 32} (hexact : Exact w (.node h items))
    (hdiff : weigh w items' = weigh w items + diff) (hitems' : ∀ t ∈ items', Exact w t) :
    Exact w (.node { h with container := some (c.updateItemWeight diff) } items') ∧
      getWeight w (.node { h with container := some (c.updateItemWeight diff) } items') =
        getWeight w (.node h items) + diff := by
  refine ⟨.node _ _ (fun c' hc' => ?_) hitems', ?_⟩
  · obtain rfl := Option.some.inj hc'
    rw [hdiff, ← hexact.total hc]
    rfl
  · rw [getWeight_node h items hc, getWeight_node _ items' rfl, add_assoc]
    rfl

theorem perform_exact {op : Container → List Content → Change} {path : List Nat} {t t' : Content}
    {diff : BitVec 32} {loose : List Content} (hexact : Exact w t) (hshown : t.Shown path)
    (hsound : ∀ c items, t.Target path c items → (∀ t ∈ items, Exact w t) →
      Sound w items (op c items))
    (hperform : t.perform op path = some (t', diff, loose)) :
    Exact w t' ∧ t'.getWeight w = t.getWeight w + diff ∧ ∀ t ∈ loose, Exact w t := by
  induction path generalizing t t' diff loose with
  | nil =>
      cases t with
      | node h items =>
          rw [perform] at hperform
          cases hc : h.container with
          | none =>
              rw [hc] at hperform
              cases hperform
          | some c =>
              rw [hc] at hperform
              obtain ⟨rfl, rfl, rfl⟩ := hperform
              have hsound := hsound c items ⟨_, rfl, hc, rfl⟩ hexact.items
              have hupdate := exact_update hc hexact hsound.diff (hsound.items_exact hexact.items)
              exact ⟨hupdate.1, hupdate.2, hsound.loose hexact.items⟩
  | cons k path ih =>
      cases t with
      | node h items =>
          rw [perform] at hperform
          cases hc : h.container with
          | none =>
              rw [hc] at hperform
              cases hperform
          | some c =>
              rw [hc] at hperform
              cases hk : items[k]? with
              | none =>
                  rw [hk] at hperform
                  cases hperform
              | some item =>
                  rw [hk] at hperform
                  dsimp only at hperform
                  cases hitem : perform op path item with
                  | none =>
                      rw [hitem] at hperform
                      cases hperform
                  | some result =>
                      rw [hitem] at hperform
                      obtain ⟨item', diff', loose'⟩ := result
                      obtain ⟨hparent, hshown'⟩ := hshown item hk
                      obtain ⟨hexact', hweight, hloose⟩ := ih (hexact.items item
                        (List.mem_of_getElem? hk)) hshown' (fun c' items' htarget =>
                          hsound c' items' (htarget.cons hk)) hitem
                      dsimp only at hperform
                      rw [hparent, if_neg nofun] at hperform
                      obtain ⟨rfl, rfl, rfl⟩ := hperform
                      -- the item got heavier by the difference
                      have hdiff : weigh w (items.set k item') = weigh w items + diff := by
                        rw [weigh_set hk, hweight]
                        abel
                      have hupdate := exact_update hc hexact hdiff fun t ht => by
                        rcases List.mem_or_eq_of_mem_set ht with ht | rfl
                        · exact hexact.items t ht
                        · exact hexact'
                      exact ⟨hupdate.1, hupdate.2, hloose⟩

/-! ## `clone` -/

variable (w) in
/-- A type that stacks is made as a plain item, and its sub-type is the count. -/
def Plain (o : Object) : Prop :=
  (o.itemType w.toTileWorld).stackable = true →
    (o.itemType w.toTileWorld).itemClass = .item ∧ (o.itemType w.toTileWorld).holdsFluid = false

theorem cloneItem_object {o : Object} {t : Content} (hclone : cloneItem w o = some t) :
    t.object.id = o.id ∧ t.object.attributes = o.attributes ∧
      t.object.count = (Item.newItem w.toWorld o.id (o.count.setWidth 16)).count ∧
      t.items = [] ∧ ∀ c, t.container = some c → c.totalWeight = 0 := by
  rw [cloneItem, Option.map_eq_some_iff] at hclone
  obtain ⟨i, hi, rfl⟩ := hclone
  have hnew : i = Item.newItem w.toWorld o.id (o.count.setWidth 16) := by
    rw [Item.createItem] at hi
    split at hi
    · cases hi
    · split at hi
      · exact (Option.some.inj hi).symm
      · cases hi
  subst hnew
  refine ⟨(Item.newItem_rest w.toWorld o.id _).1, rfl, rfl, rfl, fun c hc => ?_⟩
  rw [Container.newItem] at hc
  split at hc
  · exact (Option.some.inj hc) ▸ rfl
  · exact (Option.some.inj hc) ▸ rfl
  · cases hc

theorem cloneItem_weight {o : Object} {t : Content} (hplain : Plain w o)
    (hclone : cloneItem w o = some t) : t.object.getWeight w = o.getWeight w := by
  obtain ⟨hid, hattributes, hcount, _, _⟩ := cloneItem_object hclone
  have hbase : t.object.getBaseWeight w = o.getBaseWeight w := by
    rw [Object.getBaseWeight, Object.getBaseWeight, Item.hasAttribute, Item.hasAttribute,
      Item.getIntAttr, Item.getIntAttr, hattributes, hid]
  have htype : t.object.itemType w.toTileWorld = o.itemType w.toTileWorld := by
    rw [Object.itemType, Object.itemType, hid]
  rw [Object.getWeight, Object.getWeight, hbase, htype]
  split
  case isFalse => rfl
  case isTrue hstackable =>
    obtain ⟨hclass, hfluid⟩ := hplain hstackable
    rw [hcount, Item.count_newItem hstackable hclass hfluid]
    by_cases hzero : o.count = 0
    · rw [hzero]
      rfl
    · have hne : o.count.setWidth 16 ≠ 0 := by
        intro h
        refine hzero (BitVec.eq_of_toNat_eq ?_)
        have h' := congrArg BitVec.toNat h
        rw [BitVec.toNat_setWidth, Nat.mod_eq_of_lt (by omega)] at h'
        exact h'
      rw [if_neg hne, BitVec.setWidth_setWidth_of_le _ (by omega), BitVec.setWidth_eq]

theorem exact_of_items_eq_nil {t : Content} (hitems : t.items = [])
    (hzero : ∀ c, t.container = some c → c.totalWeight = 0) : Exact w t := by
  cases t with
  | node h items =>
      obtain rfl : items = [] := hitems
      exact .node h [] hzero fun t ht => absurd ht List.not_mem_nil

/-- The clones of items that are plain weigh the same. -/
theorem weigh_cloneItems {items items' : List Content}
    (hclone : ∀ t ∈ items, ∀ t', t.clone w = some t' → Exact w t' ∧ t'.getWeight w = t.getWeight w)
    (hitems : cloneItems w items = some items') :
    weigh w items' = weigh w items ∧ ∀ t ∈ items', Exact w t := by
  induction items generalizing items' with
  | nil =>
      rw [cloneItems] at hitems
      obtain rfl := Option.some.inj hitems
      exact ⟨rfl, fun t ht => absurd ht List.not_mem_nil⟩
  | cons item items ih =>
      rw [cloneItems] at hitems
      cases hitem : clone w item with
      | none =>
          rw [hitem] at hitems
          cases hitems
      | some item' =>
          rw [hitem] at hitems
          cases hrest : cloneItems w items with
          | none =>
              rw [hrest] at hitems
              cases hitems
          | some rest' =>
              rw [hrest] at hitems
              obtain rfl := Option.some.inj hitems
              obtain ⟨hexact, hweight⟩ := hclone item List.mem_cons_self item' hitem
              obtain ⟨hsum, hexact'⟩ := ih (fun t ht => hclone t (List.mem_cons_of_mem _ ht)) hrest
              refine ⟨?_, List.forall_mem_cons.mpr ⟨hexact, hexact'⟩⟩
              rw [weigh_cons, weigh_cons, hweight, hsum]

omit w in
theorem mem_flatten_of_items {t u : Content} (hu : u ∈ t.items) {h : Holder}
    (hh : h ∈ Rose.flatten u) : h ∈ Rose.flatten t := by
  cases t with
  | node h' items =>
      rw [Rose.flatten_node]
      exact List.mem_cons_of_mem _ (List.mem_flatMap.mpr ⟨u, hu, hh⟩)

/-- `clone` copies `totalWeight`; the items in the clone weigh the same if they are plain. -/
theorem clone_exact (t : Content) : ∀ t', Exact w t →
    (∀ u ∈ t.items, ∀ h ∈ Rose.flatten u, Plain w h.object) → t.clone w = some t' →
      Exact w t' ∧ (Plain w t.object → t'.getWeight w = t.getWeight w) := by
  induction t using Rose.induct with
  | step h items ih =>
      intro t' hexact hplain hclone
      rw [clone] at hclone
      cases hnew : cloneItem w h.object with
      | none =>
          rw [hnew] at hclone
          cases hclone
      | some t₀ =>
          rw [hnew] at hclone
          obtain ⟨_, _, _, hempty, hzero⟩ := cloneItem_object hnew
          cases hc : h.container with
          | none =>
              rw [hc] at hclone
              obtain rfl := Option.some.inj hclone
              refine ⟨exact_of_items_eq_nil hempty hzero, fun hroot => ?_⟩
              have hobject : t₀.object.getWeight w = h.object.getWeight w := cloneItem_weight hroot hnew
              have hnone : getWeight w (.node h items) = h.object.getWeight w := by
                have hcontainer : container (.node h items) = none := hc
                rw [getWeight, hcontainer]
                rfl
              rw [hnone, ← hobject, getWeight]
              cases hc' : t₀.container with
              | none => rfl
              | some c' =>
                  show t₀.object.getWeight w + c'.totalWeight = _
                  rw [hzero c' hc', add_zero]
          | some c =>
              rw [hc] at hclone
              dsimp only at hclone
              cases hc' : t₀.container with
              | none =>
                  rw [hc'] at hclone
                  cases hclone
              | some c' =>
                  rw [hc'] at hclone
                  dsimp only at hclone
                  cases hitems : cloneItems w items with
                  | none =>
                      rw [hitems] at hclone
                      cases hclone
                  | some items' =>
                      rw [hitems] at hclone
                      obtain rfl := Option.some.inj hclone
                      have hsame := weigh_cloneItems (fun u hu u' hu' => ?_) hitems
                      · refine ⟨.node _ _ (fun c'' hc'' => ?_) hsame.2, fun hroot => ?_⟩
                        · obtain rfl := Option.some.inj hc''
                          exact (hexact.total hc).trans hsame.1.symm
                        · rw [getWeight_node h items hc, getWeight_node _ items' rfl]
                          exact congrArg (· + c.totalWeight) (cloneItem_weight hroot hnew)
                      · obtain ⟨hexact', hweight⟩ := ih u hu u' (hexact.items u hu)
                          (fun v hv x hx => hplain u hu x (mem_flatten_of_items hv hx)) hu'
                        exact ⟨hexact', hweight (hplain u hu _ (Rose.label_mem_flatten u))⟩

/-! ## `unserializeItemNode` -/

theorem load_exact {t item : Content} (ht : Exact w t) (hitem : Exact w item) :
    Exact w (load w t item) := by
  cases t with
  | node h items =>
      rw [load]
      cases hc : container (.node h items) with
      | none => exact ht
      | some c =>
          have hsound := Container.sound_addItemBack hitem items
          exact (exact_update hc ht hsound.diff (hsound.items_exact ht.items)).1

theorem unserializeItems_exact {nodes : List OtbNode}
    (hnodes : ∀ n ∈ nodes, ∀ t, unserializeItemNode w n = some t → Exact w t) {t t' : Content}
    (ht : Exact w t) (hload : unserializeItems w t nodes = some t') : Exact w t' := by
  induction nodes generalizing t with
  | nil =>
      rw [unserializeItems] at hload
      exact Option.some.inj hload ▸ ht
  | cons n nodes ih =>
      rw [unserializeItems] at hload
      cases hn : unserializeItemNode w n with
      | none =>
          rw [hn] at hload
          cases hload
      | some item =>
          rw [hn] at hload
          have hitem := hnodes n List.mem_cons_self item hn
          exact ih (fun n hn => hnodes n (List.mem_cons_of_mem _ hn)) (load_exact ht hitem) hload

/-- Loading adds up the weights. -/
theorem unserializeItemNode_exact (n : OtbNode) :
    ∀ t, unserializeItemNode w n = some t → Exact w t := by
  induction n using Rose.induct with
  | step l nodes ih =>
      intro t hload
      unfold unserializeItemNode at hload
      split at hload
      case h_2 => cases hload
      case h_1 s _ _ =>
      cases hcreate : createItem w s with
      | none =>
          rw [hcreate] at hload
          cases hload
      | some result =>
          obtain ⟨i, s'⟩ := result
          rw [hcreate] at hload
          dsimp only at hload
          split at hload
          · cases hload
          split at hload
          · exact Option.some.inj hload ▸ Container.exact_newItem w i.id _
          · exact unserializeItems_exact ih (Container.exact_newItem w i.id _) hload

theorem find_exact {path : List Nat} {t u : Content} (hexact : Exact w t)
    (hfind : t.find path = some u) : Exact w u := by
  induction path generalizing t with
  | nil =>
      rw [find] at hfind
      exact Option.some.inj hfind ▸ hexact
  | cons k path ih =>
      cases t with
      | node h items =>
          rw [find] at hfind
          cases hk : items[k]? with
          | none =>
              rw [hk] at hfind
              cases hfind
          | some item =>
              rw [hk] at hfind
              exact ih (hexact.items item (List.mem_of_getElem? hk)) hfind

end Content

/-! ## Runs -/

namespace Forest

open Content

variable (w)

/-- No operation is done below a container that hides its parent, a transformation does
not change the weight by `setDefaultSubtype`, and what a cloned container holds is
plain. -/
def KeepsWeight (f : Forest) : Op → Prop
  | .clone r path =>
      ∀ t, f[r]?.bind (Content.find path) = some t →
        ∀ u ∈ t.items, ∀ h ∈ Rose.flatten u, Plain w h.object
  | .addThing r path _ j => ∀ t, (f.eraseIdx j)[r]? = some t → t.Shown path
  | .addItemBack r path j => ∀ t, (f.eraseIdx j)[r]? = some t → t.Shown path
  | .internalAddThing r path j => ∀ t, (f.eraseIdx j)[r]? = some t → t.Shown path
  | .replaceThing r path _ j => ∀ t, (f.eraseIdx j)[r]? = some t → t.Shown path
  | .updateThing r path _ _ _ => ∀ t, f[r]? = some t → t.Shown path
  | .removeThing r path _ _ => ∀ t, f[r]? = some t → t.Shown path
  | .transformItem r path index newId newCount =>
      ∀ t, f[r]? = some t → t.Shown path ∧ ∀ c items item, t.Target path c items →
        items[index]? = some item → Container.SetsDefault w item newId newCount →
          (item.object.setDefaultSubtype w.toTileWorld).getWeight w = item.object.getWeight w
  | _ => True

/-- A run starts with items whose weights are exact. -/
def system : TSys Forest Op where
  init f := ∀ t ∈ f, Exact w t
  step f op f' := f' = f.run w op

variable {w}

theorem perform_exact {f : Forest} (hexact : ∀ t ∈ f, Exact w t) {r : Nat} {path : List Nat}
    (op : Container → List Content → Change) (hshown : ∀ t, f[r]? = some t → t.Shown path)
    (hsound : ∀ t c items, f[r]? = some t → t.Target path c items →
      (∀ t ∈ items, Exact w t) → Sound w items (op c items)) :
    ∀ t ∈ f.perform r path op, Exact w t := by
  rw [perform]
  cases hr : f[r]? with
  | none => exact hexact
  | some t =>
      dsimp only
      cases hperform : t.perform op path with
      | none => exact hexact
      | some result =>
          obtain ⟨t', diff, loose⟩ := result
          obtain ⟨hexact', _, hloose⟩ := Content.perform_exact (hexact t (List.mem_of_getElem? hr))
            (hshown t hr) (fun c items htarget => hsound t c items hr htarget) hperform
          intro u hu
          rcases List.mem_append.mp hu with hu | hu
          · rcases List.mem_or_eq_of_mem_set hu with hu | rfl
            · exact hexact u hu
            · exact hexact'
          · exact hloose u hu

theorem performWith_exact {f : Forest} (hexact : ∀ t ∈ f, Exact w t) {r : Nat} {path : List Nat}
    {j : Nat} {op : Content → Container → List Content → Change}
    (hshown : ∀ t, (f.eraseIdx j)[r]? = some t → t.Shown path)
    (hsound : ∀ item c items, Exact w item → Sound w items (op item c items)) :
    ∀ t ∈ f.performWith r path j op, Exact w t := by
  rw [performWith]
  cases hj : f[j]? with
  | none => exact hexact
  | some item =>
      have hitem := hexact item (List.mem_of_getElem? hj)
      have hrest := perform_exact (fun t ht => hexact t (List.mem_of_mem_eraseIdx ht)) (op item)
        hshown (fun _ c items _ _ _ => hsound item c items hitem)
      rw [perform] at hrest
      dsimp only
      cases hr : (f.eraseIdx j)[r]? with
      | none => exact hexact
      | some t =>
          rw [hr] at hrest
          dsimp only at hrest ⊢
          cases hperform : t.perform (op item) path with
          | none => exact hexact
          | some result =>
              rw [hperform] at hrest
              exact hrest

/-- Items that come from nowhere are added at the end. -/
theorem append_exact {f : Forest} (hexact : ∀ t ∈ f, Exact w t) {t : Content} (ht : Exact w t) :
    ∀ u ∈ f ++ [t], Exact w u := by
  intro u hu
  rcases List.mem_append.mp hu with hu | hu
  · exact hexact u hu
  · exact List.mem_singleton.mp hu ▸ ht

/-- One operation. -/
theorem run_exact {f : Forest} (hexact : ∀ t ∈ f, Exact w t) (op : Op)
    (hkeeps : f.KeepsWeight w op) : ∀ t ∈ f.run w op, Exact w t := by
  cases op with
  | createItem id count =>
      rw [run]
      cases Item.createItem w.toWorld id count with
      | none => exact hexact
      | some i => exact append_exact hexact (Container.exact_newItem w id i)
  | unserializeItemNode node =>
      rw [run]
      cases hload : Content.unserializeItemNode w node with
      | none => exact hexact
      | some t => exact append_exact hexact (unserializeItemNode_exact node t hload)
  | clone r path =>
      rw [run]
      cases hfind : f[r]?.bind (Content.find path) with
      | none => exact hexact
      | some t =>
          rw [Option.bind_some]
          cases hclone : t.clone w with
          | none => exact hexact
          | some t' =>
              obtain ⟨root, hroot, hpath⟩ := Option.bind_eq_some_iff.mp hfind
              have ht := find_exact (hexact root (List.mem_of_getElem? hroot)) hpath
              exact append_exact hexact (clone_exact t t' ht (hkeeps t hfind) hclone).1
  | setObject r o =>
      rw [run]
      cases hr : f[r]? with
      | none => exact hexact
      | some t =>
          intro u hu
          rcases List.mem_or_eq_of_mem_set hu with hu | rfl
          · exact hexact u hu
          · exact (hexact t (List.mem_of_getElem? hr)).setObject o
  | addThing r path index j =>
      exact performWith_exact hexact hkeeps fun item c items hitem =>
        Container.sound_addThing hitem c index items
  | addItemBack r path j =>
      exact performWith_exact hexact hkeeps fun item _ items hitem =>
        Container.sound_addItemBack hitem items
  | internalAddThing r path j =>
      exact performWith_exact hexact hkeeps fun item _ items hitem =>
        Container.sound_internalAddThing hitem items
  | replaceThing r path index j =>
      exact performWith_exact hexact hkeeps fun item _ items hitem =>
        Container.sound_replaceThing hitem index items
  | updateThing r path index itemId count =>
      exact perform_exact hexact _ hkeeps fun _ _ items _ _ _ =>
        Container.sound_updateThing index itemId count items
  | removeThing r path index count =>
      exact perform_exact hexact _ hkeeps fun _ _ items _ _ _ =>
        Container.sound_removeThing index count items
  | transformItem r path index newId newCount =>
      refine perform_exact hexact _ (fun t hr => (hkeeps t hr).1) fun t c items hr htarget hitems =>
        Container.sound_transformItem c hitems fun item hitem hsets => ?_
      exact (hkeeps t hr).2 c items item htarget hitem hsets

theorem exact_inductive : (system w).Inductive (KeepsWeight w) fun f => ∀ t ∈ f, Exact w t where
  init _ hexact := hexact
  step f op f' hexact hkeeps hstep := by
    obtain rfl : f' = f.run w op := hstep
    exact run_exact hexact op hkeeps

/-- Over a whole run, `totalWeight` is the sum of the weights of the items in the container. -/
theorem totalWeight_of_reach {f : Forest} (hreach : (system w).Reach (KeepsWeight w) f)
    {t : Content} (ht : t ∈ f) {path : List Nat} {c : Container} {items : List Content}
    (htarget : t.Target path c items) :
    c.totalWeight = (items.map (Content.getWeight w)).sum := by
  obtain ⟨item, hfind, hcontainer, rfl⟩ := htarget
  have hexact := find_exact (exact_inductive.invariant hreach t ht) hfind
  cases item with
  | node h items => exact hexact.total hcontainer

theorem reach_run {C : Forest → Op → Prop} {f : Forest} (hreach : (system w).Reach C f) (op : Op)
    (hop : C f op) : (system w).Reach C (f.run w op) :=
  .next hreach hop rfl

/-! Type 1 is a container; types 2 and 3 stack and are of different groups. -/

def bagWorld : WeightWorld where
  itemType id :=
    { id := id
      group := if id = 1 then .container else if id = 3 then .ammunition else .none
      stackable := id ≠ 1 }
  addUniqueItem _ := true
  getNameByGuid _ := []
  tileItemType _ := {}
  weight id := id.setWidth 32 * 10
  maxItems _ := 20

/-- A bag and 50 pieces of type 2. -/
def unpacked : Forest :=
  (Forest.run bagWorld [] (.createItem 1 0)).run bagWorld (.createItem 2 50)

/-- The 50 pieces are put into the bag. -/
def packed : Forest := unpacked.run bagWorld (.internalAddThing 0 [] 1)

theorem reach_packed {C : Forest → Op → Prop} (hcreate : ∀ f id count, C f (.createItem id count))
    (hadd : C unpacked (.internalAddThing 0 [] 1)) : (system bagWorld).Reach C packed := by
  have hnone : (system bagWorld).Reach C [] := .start fun t ht => absurd ht List.not_mem_nil
  have hbag := reach_run hnone (.createItem 1 0) (hcreate _ _ _)
  exact reach_run (reach_run hbag (.createItem 2 50) (hcreate _ _ _)) (.internalAddThing 0 [] 1) hadd

theorem totalWeight_of_reach_packed :
    (system bagWorld).Reach (KeepsWeight bagWorld) packed ∧
    ∃ t ∈ packed, ∃ c items, t.Target [] c items ∧ c.totalWeight = 1000 ∧
      c.totalWeight = (items.map (Content.getWeight bagWorld)).sum := by
  have hreach : (system bagWorld).Reach (KeepsWeight bagWorld) packed :=
    reach_packed (fun _ _ _ => trivial) fun _ _ => trivial
  have htarget : (packed.get ⟨0, by decide⟩).Target [] { totalWeight := 1000, maxSize := 20 }
      (packed.get ⟨0, by decide⟩).items := ⟨_, rfl, rfl, rfl⟩
  exact ⟨hreach, _, List.get_mem _ _, _, _, htarget, rfl,
    totalWeight_of_reach hreach (List.get_mem _ _) htarget⟩

/-- The pieces are transformed into pieces of another group: the weight of one piece is
taken from `totalWeight` and that of 50 is added. -/
theorem transformItem_totalWeight :
    let f := packed.run bagWorld (.transformItem 0 [] 0 3 (-1))
    (system bagWorld).Reachable f ∧
      ∃ t ∈ f, ∃ c items, t.Target [] c items ∧ c.totalWeight = 2480 ∧
        (items.map (Content.getWeight bagWorld)).sum = 1500 := by
  have hreach : (system bagWorld).Reachable packed := reach_packed (fun _ _ _ => trivial) trivial
  refine ⟨reach_run hreach (.transformItem 0 [] 0 3 (-1)) trivial, ?_⟩
  refine ⟨(packed.run bagWorld (.transformItem 0 [] 0 3 (-1))).get ⟨0, by decide⟩,
    List.get_mem _ _, { totalWeight := 2480, maxSize := 20 }, _, ⟨_, rfl, rfl, rfl⟩, ?_, ?_⟩
  · rfl
  · decide

end Forest

end Infernum
