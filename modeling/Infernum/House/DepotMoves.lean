import Infernum.House.Depot
import Infernum.Cylinder.AddItem

/-!
# What is carried to the inbox

Whatever an inbox is given goes to its front: an item that is not stackable goes itself, a
stack as a clone. One move takes an item out of what it lies in and puts it, or its clone,
into the inbox; several moves add up.
-/

namespace Infernum

/-! ## Several moves -/

/-- A tile without some of its items. -/
def TileThings.without (tile : TileThings) (items : List Nat) : TileThings :=
  { tile with
    downItems := tile.downItems.filter (· ∉ items)
    topItems := tile.topItems.filter (· ∉ items) }

/-- A container without some of its items. -/
def HeapContainer.without (c : HeapContainer) (items : List Nat) : HeapContainer :=
  { c with itemlist := c.itemlist.filter (· ∉ items) }

theorem filter_filter_not_mem (l items more : List Nat) :
    (l.filter (· ∉ items)).filter (· ∉ more) = l.filter (· ∉ items ++ more) := by
  rw [List.filter_filter]
  refine List.filter_congr fun i _ => ?_
  simp [Bool.and_comm]

theorem TileThings.without_without (tile : TileThings) (items more : List Nat) :
    (tile.without items).without more = tile.without (items ++ more) := by
  simp only [without, filter_filter_not_mem]

theorem HeapContainer.without_without (c : HeapContainer) (items more : List Nat) :
    (c.without items).without more = c.without (items ++ more) := by
  simp only [without, filter_filter_not_mem]

namespace House

variable (w : CylinderWorld)

def IsBrowseField (h : Heap Tiles) (k : Nat) : Prop := ∃ t, h.browseFields t = some k

/-- An item has come to the inbox: a stack as a clone, anything else as it is. -/
structure Arrival (inbox : Nat) (h h' : Heap Tiles) (item arrived : Nat) : Prop where
  id : (h'.object arrived).id = (h.object item).id
  count : h'.getItemCount arrived = h.getItemCount item
  attributes : (h.object item).hasAttributes = true →
    (h'.object arrived).attributes = (h.object item).attributes
  abilities : (h.object item).hasAbilities = true →
    (h'.object arrived).abilities = (h.object item).abilities
  parent : h'.parent arrived = some (.item inbox)
  made : arrived < h'.next
  itself : if h.isStackable w item then h.next ≤ arrived else arrived = item

/-- Some items have gone to the inbox, one after the other; nothing else has changed of the
tiles and of the containers that were there, the browse fields apart. -/
structure Carries (base inbox : Nat) (items arrivals : List Nat) (h h' : Heap Tiles) : Prop where
  next : h.next ≤ h'.next
  object : ∀ i < h.next, h'.object i = h.object i
  parent : ∀ i < h.next, i ∉ items → h'.parent i = h.parent i
  tile : h'.tile = h.tile
  browseFields : h'.browseFields = h.browseFields
  kind : ∀ k < h.next, (h'.container k).map (·.kind) = (h.container k).map (·.kind)
  others : ∀ t, h'.others t = (h.others t).without items
  container : ∀ k < base, k ≠ inbox → ¬IsBrowseField h k →
    h'.container k = (h.container k).map (·.without items)
  front : h'.container inbox =
    (h.container inbox).map fun c => { c with itemlist := arrivals.reverse ++ c.itemlist }
  arrived : List.Forall₂ (Arrival w inbox h h') items arrivals
  nodup : arrivals.Nodup

variable {w : CylinderWorld} {base inbox : Nat} {h h' h'' : Heap Tiles}
  {items more arrivals after : List Nat}

theorem Carries.refl (h : Heap Tiles) : Carries w base inbox [] [] h h := by
  refine ⟨le_refl _, fun _ _ => rfl, fun _ _ _ => rfl, rfl, rfl, fun _ _ => rfl, fun t => ?_,
    fun k _ _ _ => ?_, ?_, .nil, List.nodup_nil⟩
  · simp [TileThings.without]
  · simp [HeapContainer.without]
  · simp

theorem Arrival.new_or_moved {item arrived : Nat} (ha : Arrival w inbox h h' item arrived) :
    arrived = item ∨ h.next ≤ arrived := by
  have hitself := ha.itself
  split at hitself
  · exact .inr hitself
  · exact .inl hitself

theorem Carries.new_or_moved (hc : Carries w base inbox items arrivals h h') {a : Nat}
    (ha : a ∈ arrivals) : (a ∈ items ∨ h.next ≤ a) ∧ a < h'.next := by
  obtain ⟨k, hk, rfl⟩ := List.getElem_of_mem ha
  have hk' : k < items.length := hc.arrived.length_eq ▸ hk
  have harrival := hc.arrived.get hk' hk
  refine ⟨?_, harrival.made⟩
  rcases harrival.new_or_moved with hsame | hnew
  · have hmem := List.get_mem items ⟨k, hk'⟩
    rw [← hsame] at hmem
    exact .inl hmem
  · exact .inr hnew

theorem Carries.isStackable (hc : Carries w base inbox items arrivals h h') {i : Nat}
    (hi : i < h.next) : h'.isStackable w i = h.isStackable w i := by
  rw [Heap.isStackable, Heap.isStackable, Heap.itemType, Heap.itemType, hc.object i hi]

/-- What has come to the inbox stays there. -/
theorem Arrival.later {item arrived : Nat} (ha : Arrival w inbox h h' item arrived)
    (hc : Carries w base inbox more after h' h'') (hnot : arrived ∉ more) :
    Arrival w inbox h h'' item arrived := by
  have hobject := hc.object arrived ha.made
  refine ⟨?_, ?_, fun hattr => ?_, fun habil => ?_, ?_, ha.made.trans_le hc.next, ha.itself⟩
  · rw [hobject, ha.id]
  · rw [Heap.getItemCount, hobject]
    exact ha.count
  · rw [hobject, ha.attributes hattr]
  · rw [hobject, ha.abilities habil]
  · rw [hc.parent arrived ha.made hnot, ha.parent]

/-- An item that has not been moved before. -/
theorem Arrival.before {item arrived : Nat} (hc : Carries w base inbox items arrivals h h')
    (hmade : item < h.next) (ha : Arrival w inbox h' h'' item arrived) :
    Arrival w inbox h h'' item arrived := by
  have hobject := hc.object item hmade
  have hid := ha.id
  have hcount := ha.count
  have hattr := ha.attributes
  have habil := ha.abilities
  have hitself := ha.itself
  rw [Heap.getItemCount, Heap.getItemCount, hobject] at hcount
  rw [hobject] at hid hattr habil
  rw [hc.isStackable hmade] at hitself
  refine ⟨hid, hcount, hattr, habil, ha.parent, ha.made, ?_⟩
  split
  · rename_i hstack
    rw [if_pos hstack] at hitself
    exact hc.next.trans hitself
  · rename_i hstack
    rw [if_neg hstack] at hitself
    exact hitself

theorem Carries.trans (hc : Carries w base inbox items arrivals h h')
    (hc' : Carries w base inbox more after h' h'') (hmade : ∀ i ∈ more, i < h.next)
    (hnew : ∀ i ∈ more, i ∉ items) :
    Carries w base inbox (items ++ more) (arrivals ++ after) h h'' := by
  have hnext := hc.next
  -- what has come already is not moved once more
  have hstays : ∀ a ∈ arrivals, a ∉ more := by
    intro a ha hmore
    rcases (hc.new_or_moved ha).1 with hitem | hge
    · exact hnew a hmore hitem
    · have hlt := hmade a hmore
      omega
  refine ⟨hc.next.trans hc'.next, fun i hi => ?_, fun i hi hnot => ?_, hc'.tile.trans hc.tile,
    hc'.browseFields.trans hc.browseFields, fun k hk => ?_, fun t => ?_, fun k hk hne hbrowse => ?_,
    ?_, ?_, ?_⟩
  · rw [hc'.object i (hi.trans_le hnext), hc.object i hi]
  · obtain ⟨hnot₁, hnot₂⟩ := not_or.mp (mt List.mem_append.mpr hnot)
    rw [hc'.parent i (hi.trans_le hnext) hnot₂, hc.parent i hi hnot₁]
  · rw [hc'.kind k (hk.trans_le hnext), hc.kind k hk]
  · rw [hc'.others, hc.others, TileThings.without_without]
  · have hbrowse' : ¬IsBrowseField h' k := by
      rw [IsBrowseField, hc.browseFields]
      exact hbrowse
    rw [hc'.container k hk hne hbrowse', hc.container k hk hne hbrowse, Option.map_map]
    congr 1
    funext c
    exact c.without_without items more
  · rw [hc'.front, hc.front, Option.map_map]
    congr 1
    funext c
    show ({ c with itemlist := after.reverse ++ (arrivals.reverse ++ c.itemlist) } : HeapContainer)
      = _
    rw [List.reverse_append, List.append_assoc]
  · refine List.rel_append ?_ ?_
    · refine (List.forall₂_iff_zip.mpr ⟨hc.arrived.length_eq, fun {i a} hpair => ?_⟩)
      have harrival := (List.forall₂_iff_zip.mp hc.arrived).2 hpair
      exact harrival.later hc' (hstays a (List.of_mem_zip hpair).2)
    · refine (List.forall₂_iff_zip.mpr ⟨hc'.arrived.length_eq, fun {i a} hpair => ?_⟩)
      have harrival := (List.forall₂_iff_zip.mp hc'.arrived).2 hpair
      exact .before hc (hmade i (List.of_mem_zip hpair).1) harrival
  · refine List.nodup_append.mpr ⟨hc.nodup, hc'.nodup, fun a ha b hb heq => ?_⟩
    subst heq
    rcases (hc'.new_or_moved hb).1 with hmore | hge
    · exact hstays a ha hmore
    · have hlt := (hc.new_or_moved ha).2
      omega

/-! ## One move -/

/-- An item is taken out of what it lies in. -/
structure Takes (base inbox item : Nat) (h h' : Heap Tiles) : Prop where
  next : h'.next = h.next
  object : h'.object = h.object
  parent : ∀ i, i ≠ item → h'.parent i = h.parent i
  tile : h'.tile = h.tile
  browseFields : h'.browseFields = h.browseFields
  kind : ∀ k, (h'.container k).map (·.kind) = (h.container k).map (·.kind)
  others : ∀ t, h'.others t = (h.others t).without [item]
  container : ∀ k < base, k ≠ inbox → ¬IsBrowseField h k →
    h'.container k = (h.container k).map (·.without [item])
  inbox : h'.container inbox = h.container inbox

/-- An item, or its clone, is put to the front of the inbox. -/
structure Puts (w : CylinderWorld) (inbox item arrived : Nat) (h h' : Heap Tiles) : Prop where
  next : h.next ≤ h'.next
  object : ∀ i < h.next, h'.object i = h.object i
  parent : ∀ i < h.next, i ≠ item → h'.parent i = h.parent i
  tile : h'.tile = h.tile
  browseFields : h'.browseFields = h.browseFields
  kind : ∀ k < h.next, (h'.container k).map (·.kind) = (h.container k).map (·.kind)
  others : h'.others = h.others
  container : ∀ k < h.next, k ≠ inbox → h'.container k = h.container k
  front : h'.container inbox =
    (h.container inbox).map fun c => { c with itemlist := arrived :: c.itemlist }
  arrived : Arrival w inbox h h' item arrived

theorem Takes.carries {item arrived : Nat} {h₁ : Heap Tiles} (ht : Takes base inbox item h h₁)
    (hp : Puts w inbox item arrived h₁ h') (hbase : base ≤ h.next) :
    Carries w base inbox [item] [arrived] h h' := by
  have hnext := ht.next
  have hstack : h₁.isStackable w item = h.isStackable w item := by
    rw [Heap.isStackable, Heap.isStackable, Heap.itemType, Heap.itemType, ht.object]
  refine ⟨hnext ▸ hp.next, fun i hi => ?_, fun i hi hne => ?_, hp.tile.trans ht.tile,
    hp.browseFields.trans ht.browseFields, fun k hk => ?_, fun t => ?_,
    fun k hk hne hbrowse => ?_, ?_, .cons ?_ .nil, List.nodup_singleton _⟩
  · rw [hp.object i (hnext ▸ hi), ht.object]
  · have hne : i ≠ item := fun heq => hne (heq ▸ List.mem_singleton_self _)
    rw [hp.parent i (hnext ▸ hi) hne, ht.parent i hne]
  · rw [hp.kind k (hnext ▸ hk), ht.kind]
  · rw [hp.others, ht.others]
  · rw [hp.container k (hnext ▸ hk.trans_le hbase) hne, ht.container k hk hne hbrowse]
  · rw [hp.front, ht.inbox]
    rfl
  · have ha := hp.arrived
    have hcount := ha.count
    have hitself := ha.itself
    rw [Heap.getItemCount, Heap.getItemCount, ht.object] at hcount
    rw [hstack, hnext] at hitself
    exact ⟨ht.object ▸ ha.id, hcount, ht.object ▸ ha.attributes, ht.object ▸ ha.abilities,
      ha.parent, ha.made, hitself⟩

/-- The clone of an item of a known type. -/
theorem clone_node {node m : Node} (hm : node.clone w = some m) :
    m.id = node.id ∧ (node.hasAttributes = true → m.attributes = node.attributes) ∧
      (node.hasAbilities = true → m.abilities = node.abilities) := by
  obtain ⟨i, hi, rfl⟩ := Option.map_eq_some_iff.mp hm
  refine ⟨?_, fun hattr => if_pos hattr, fun habil => if_pos habil⟩
  show i.id = node.id
  rw [(Item.known_of_createItem hi).2]
  exact (Item.newItem_rest _ _ _).1

variable {o : Others Tiles} {n item : Nat} {c : HeapContainer}

/-- An inbox has room for what is put to its front. -/
theorem addThing_inbox (hc : h.container inbox = some c) (hsize : c.maxSize = 30) (i : Nat) :
    h.addThing o (.item inbox) INDEX_WHEREEVER i =
      (h.setParent i (some (.item inbox))).setItemlist inbox c (i :: c.itemlist) := by
  rw [Heap.addThing, hc]
  dsimp only
  rw [Heap.containerAddThing, if_neg]
  rw [hsize]
  decide

theorem addThing_puts (hc : h.container inbox = some c) (hsize : c.maxSize = 30)
    (hmade : item < h.next) (hstack : h.isStackable w item = false) :
    Puts w inbox item item h (h.addThing o (.item inbox) INDEX_WHEREEVER item) := by
  rw [addThing_inbox hc hsize]
  refine ⟨le_refl _, fun _ _ => rfl, fun i _ hi => Function.update_of_ne hi _ _, rfl, rfl,
    fun k _ => ?_, rfl, fun k _ hk => Function.update_of_ne hk _ _, ?_, ?_⟩
  · show (Function.update h.container inbox _ k).map _ = _
    by_cases hk : k = inbox
    · rw [hk, Function.update_self, hc]
      rfl
    · rw [Function.update_of_ne hk]
  · rw [hc]
    exact Function.update_self _ _ _
  · refine ⟨rfl, rfl, fun _ => rfl, fun _ => rfl, Function.update_self _ _ _, hmade, ?_⟩
    rw [if_neg (by rw [hstack]; exact Bool.noConfusion)]

/-- The clone of a stack, which gets its count. -/
theorem clone_puts {node : Node} (hc : h.container inbox = some c) (hsize : c.maxSize = 30)
    (hinbox : inbox < h.next) (hstack : h.isStackable w item = true)
    (hcontainer : h.container item = none) (hnode : (h.object item).clone w = some node)
    {count : BitVec 16} (hcount : count.setWidth 8 = h.getItemCount item) :
    h.clone w (n + 1) item =
        some (h.new node (Node.newContainer w (h.object item).id)) ∧
      Puts w inbox item h.next h
        (((h.new node (Node.newContainer w (h.object item).id)).1.setItemCount h.next
          count).addThing o (.item inbox) INDEX_WHEREEVER h.next) := by
  obtain ⟨hid, hattr, habil⟩ := clone_node hnode
  have hne : ∀ {i}, i < h.next → i ≠ h.next := fun hi => by omega
  refine ⟨by rw [Heap.clone, hnode, hcontainer], ?_⟩
  have hc' : ((h.new node (Node.newContainer w (h.object item).id)).1.setItemCount h.next
      count).container inbox = some c := by
    rw [← hc]
    exact Function.update_of_ne (hne hinbox) _ _
  rw [addThing_inbox hc' hsize]
  -- the clone as it is put into the inbox
  have hself : ∀ node' : Node, Function.update (Function.update h.object h.next node) h.next node'
      h.next = node' := fun _ => Function.update_self _ _ _
  refine ⟨Nat.le_succ _, fun i hi => ?_, fun i hi _ => ?_, rfl, rfl, fun k hk => ?_, rfl,
    fun k hk hk' => ?_, ?_, ?_⟩
  · show Function.update (Function.update h.object h.next node) h.next _ i = _
    rw [Function.update_of_ne (hne hi), Function.update_of_ne (hne hi)]
  · show Function.update (Function.update h.parent h.next none) h.next _ i = _
    rw [Function.update_of_ne (hne hi), Function.update_of_ne (hne hi)]
  · show (Function.update (Function.update h.container h.next _) inbox _ k).map _ = _
    by_cases hk' : k = inbox
    · rw [hk', Function.update_self, hc]
      rfl
    · rw [Function.update_of_ne hk', Function.update_of_ne (hne hk)]
  · show Function.update (Function.update h.container h.next _) inbox _ k = _
    rw [Function.update_of_ne hk', Function.update_of_ne (hne hk)]
  · rw [hc]
    exact Function.update_self _ _ _
  · have hnew : Function.update h.object h.next node h.next = node := Function.update_self _ _ _
    refine ⟨?_, ?_, fun hattributes => ?_, fun habilities => ?_, ?_, Nat.lt_succ_self _, ?_⟩
    · show (Function.update (Function.update h.object h.next node) h.next _ h.next).id = _
      rw [hself]
      show (Function.update h.object h.next node h.next).id = _
      rw [hnew, hid]
    · show (Function.update (Function.update h.object h.next node) h.next _ h.next).count = _
      rw [hself]
      exact hcount
    · show (Function.update (Function.update h.object h.next node) h.next _ h.next).attributes = _
      rw [hself]
      show (Function.update h.object h.next node h.next).attributes = _
      rw [hnew, hattr hattributes]
    · show (Function.update (Function.update h.object h.next node) h.next _ h.next).abilities = _
      rw [hself]
      show (Function.update h.object h.next node h.next).abilities = _
      rw [hnew, habil habilities]
    · exact Function.update_self _ _ _
    · rw [if_pos hstack]

end House

end Infernum
