import Afsplus.Core.Tree
/-!
# Visiting a tree with and without a memory

A visit of a whole tree keeps a block from being visited twice by remembering every block, or only the
path to the current one. The checks on the nodes make up for what the second forgets: an ancestor is on
a higher level than the child that is expected, and what was visited before has a key below its range.
-/

namespace Afsplus

open Fallible List TreeNode

namespace Tree

variable {dev : Device} {geo : Geometry} {spec : TreeSpec} {lba : Lba} {level : Option Nat} {isRoot : Bool}
  {lower upper : Option Bytes} {node : TreeNode}

def Holds (dev : Device) (lba : Lba) (node : TreeNode) : Prop :=
  ∃ generation, decode (dev.blocks lba) = .ok (node, generation)

theorem Holds.unique {other : TreeNode} (h : Holds dev lba node) (h' : Holds dev lba other) : node = other := by
  obtain ⟨_, h⟩ := h
  obtain ⟨_, h'⟩ := h'
  cases h.symm.trans h'
  rfl

theorem Holds.valid (h : Holds dev lba node) :
    node.level ≤ maxTreeLevel ∧ node.items.Pairwise fun a b => a.key < b.key := by
  obtain ⟨_, h⟩ := h
  exact sorted_of_validate (validate_of_decode h)

/-- The node is the block's, on the expected level and with its keys in the expected range. -/
structure Expected (dev : Device) (lba : Lba) (level : Option Nat) (lower upper : Option Bytes) (isRoot : Bool)
    (node : TreeNode) : Prop where
  holds : Holds dev lba node
  level : ∀ n ∈ level, n = node.level
  nonempty : isRoot = false → node.items ≠ []
  lower : ∀ low ∈ lower, ∀ item ∈ node.items, ¬item.key < low
  upper : ∀ high ∈ upper, ∀ item ∈ node.items, item.key < high

theorem expected_of_readNode (h : readNode dev spec lba level lower upper isRoot = .ok node) :
    Expected dev lba level lower upper isRoot node := by
  obtain ⟨block, hblock, h⟩ := of_bind h
  obtain ⟨-, rfl⟩ := Device.read_eq_ok.mp hblock
  obtain ⟨⟨node, generation⟩, hdec, h⟩ := of_bind h
  obtain ⟨hidentity, h⟩ := check_ok.mp h
  obtain ⟨hrange, h⟩ := check_ok.mp h
  obtain rfl := pure_ok.mp h
  have hholds : Holds dev lba node := ⟨generation, mapError_eq_ok.mp hdec⟩
  have hkeys := hholds.valid.2
  obtain ⟨hempty, hrange⟩ := of_refuse hrange
  obtain ⟨hlower, hupper⟩ := check_ok.mp hrange
  replace hidentity := after_check (after_check hidentity)
  have hlevel := refuseIf_eq_ok.mp hidentity
  refine ⟨hholds, fun n hn => ?_, fun hroot hnil => hempty ⟨hroot, hnil⟩, ?_, ?_⟩
  · by_contra hne
    exact hlevel ⟨n, hn, hne⟩
  · rintro low ⟨⟩
    refine not_lt_of_first hkeys fun first hfirst => ?_
    unfold validateLower at hlower
    cases hitems : node.items with
    | nil => simp [hitems] at hfirst
    | cons head rest =>
      rw [hitems] at hlower hfirst
      cases hfirst
      exact (of_refuse hlower).1
  · rintro high ⟨⟩
    refine lt_of_last hkeys fun last hlast => ?_
    unfold validateUpper at hupper
    rw [Option.mem_def.mp hlast] at hupper
    exact not_not.mp (refuseIf_eq_ok.mp hupper)

variable {nodes added : List (Lba × TreeNode)} {path : List Lba}

/-- Each node came before what is expected now: it is on a higher level, or has a key below the range. -/
def Behind (dev : Device) (level : Option Nat) (lower : Option Bytes) (nodes : List (Lba × TreeNode)) : Prop :=
  ∀ v ∈ nodes, Holds dev v.1 v.2 ∧
    ((∃ n ∈ level, n < v.2.level) ∨ ∃ low ∈ lower, ∃ item ∈ v.2.items, item.key < low)

def Below (dev : Device) (upper : Option Bytes) (nodes : List (Lba × TreeNode)) : Prop :=
  ∀ v ∈ nodes, Holds dev v.1 v.2 ∧ ∀ high ∈ upper, ∃ item ∈ v.2.items, item.key < high

/-- The blocks of the visited nodes, the last one first. -/
def blocks (nodes : List (Lba × TreeNode)) : List Lba := (nodes.map Prod.fst).reverse

theorem blocks_concat : blocks (nodes ++ [(lba, node)]) = lba :: blocks nodes := by simp [blocks]

theorem blocks_subset : blocks nodes ⊆ blocks (nodes ++ added) := by simp [blocks]

def childLower (node : TreeNode) (lower : Option Bytes) : Nat → Option Bytes
  | 0 => lower
  | index + 1 => (node.items[index]?).map TreeItem.key

theorem childAt_eq_ok {index : Nat} {child : ChildRef} {low high : Option Bytes}
    (h : childAt node index lower upper = .ok (child, low, high)) :
    low = childLower node lower index ∧ high = ((node.items[index]?).map TreeItem.key).or upper := by
  cases index with
  | zero =>
    cases h
    exact ⟨rfl, rfl⟩
  | succ index =>
    unfold childAt at h
    rw [childLower]
    dsimp only at h
    cases hitem : node.items[index]? with
    | none => simp [hitem] at h
    | some separator =>
      rw [hitem] at h
      obtain ⟨_, -, h⟩ := of_bind h
      cases h
      exact ⟨rfl, rfl⟩

section Node

variable (hnode : Expected dev lba level lower upper isRoot node)

include hnode

theorem Behind.fresh (h : Behind dev level lower nodes) : lba ∉ blocks nodes := by
  intro hmem
  obtain ⟨v, hv, rfl⟩ := mem_map.mp (mem_reverse.mp hmem)
  obtain ⟨hholds, hbehind⟩ := h v hv
  obtain rfl := hholds.unique hnode.holds
  rcases hbehind with ⟨n, hn, hlt⟩ | ⟨low, hlow, item, hitem, hlt⟩
  · exact hlt.ne (hnode.level n hn)
  · exact hnode.lower low hlow item hitem hlt

theorem Expected.below (hroot : isRoot = true → upper = none) : Below dev upper [(lba, node)] := by
  intro v hv
  obtain rfl := mem_singleton.mp hv
  refine ⟨hnode.holds, fun high hhigh => ?_⟩
  cases isRoot with
  | true => simp [hroot rfl] at hhigh
  | false =>
    obtain ⟨item, hitem⟩ := exists_mem_of_ne_nil _ (hnode.nonempty rfl)
    exact ⟨item, hitem, hnode.upper high hhigh item hitem⟩

theorem Behind.enter (h : Behind dev level lower nodes) (hpositive : node.level ≠ 0) :
    Behind dev (some (node.level - 1)) lower (nodes ++ [(lba, node)]) := by
  intro v hv
  rcases mem_append.mp hv with hv | hv
  · obtain ⟨hholds, ⟨n, hn, hlt⟩ | hlow⟩ := h v hv
    · have := hnode.level n hn
      exact ⟨hholds, .inl ⟨_, rfl, by omega⟩⟩
    · exact ⟨hholds, .inr hlow⟩
  · obtain rfl := mem_singleton.mp hv
    exact ⟨hnode.holds, .inl ⟨_, rfl, Nat.sub_one_lt hpositive⟩⟩

variable {index : Nat} (hbelow : Below dev (((node.items[index]?).map TreeItem.key).or upper) added)

include hbelow

theorem Behind.next (h : Behind dev (some (node.level - 1)) (childLower node lower index) nodes)
    (hindex : index < node.items.length) :
    Behind dev (some (node.level - 1)) (childLower node lower (index + 1)) (nodes ++ added) := by
  have hitem := getElem?_eq_getElem hindex
  intro v hv
  rw [childLower, hitem]
  rcases mem_append.mp hv with hv | hv
  · obtain ⟨hholds, hlevel | ⟨low, hlow, item, hkey, hlt⟩⟩ := h v hv
    · exact ⟨hholds, .inl hlevel⟩
    · refine ⟨hholds, .inr ⟨_, rfl, item, hkey, Std.lt_of_lt_of_le hlt ?_⟩⟩
      cases index with
      | zero => exact Std.not_lt.mp (hnode.lower low hlow _ (getElem_mem hindex))
      | succ index =>
        rw [childLower, getElem?_eq_getElem (by omega)] at hlow
        cases hlow
        exact Std.le_of_lt (pairwise_iff_getElem.mp hnode.holds.valid.2 _ _ _ hindex (by omega))
  · obtain ⟨hholds, hhigh⟩ := hbelow v hv
    rw [hitem] at hhigh
    exact ⟨hholds, .inr ⟨_, rfl, hhigh _ rfl⟩⟩

theorem Below.parent : Below dev upper added := by
  intro v hv
  obtain ⟨hholds, hhigh⟩ := hbelow v hv
  refine ⟨hholds, fun high hupper => ?_⟩
  cases hitem : node.items[index]? with
  | none =>
    rw [hitem] at hhigh
    exact hhigh high hupper
  | some separator =>
    rw [hitem] at hhigh
    obtain ⟨item, hmem, hlt⟩ := hhigh separator.key rfl
    exact ⟨item, hmem, Std.lt_trans hlt (hnode.upper high hupper separator (mem_of_getElem? hitem))⟩

end Node

/-! ### Both visits side by side -/

/-- Both refuse, or accept with the same result and the same further nodes; `x` remembers every block. -/
inductive Agree (dev : Device) (nodes : List (Lba × TreeNode)) (path : List Lba) (upper : Option Bytes)
    (x y : Visited) : Prop
  | refused {e e' : CoreError} (hx : x = .error e) (hy : y = .error e')
  | accepted (checked : CheckedSubtree) (added : List (Lba × TreeNode))
    (hx : x = .ok (checked, ⟨blocks (nodes ++ added), nodes ++ added⟩))
    (hy : y = .ok (checked, ⟨path, nodes ++ added⟩)) (below : Below dev upper added)
    (nodup : (blocks nodes).Nodup → (blocks (nodes ++ added)).Nodup)

theorem Agree.bind {α : Type} {x : Except CoreError α} {f g : α → Visited}
    (h : ∀ a, x = .ok a → Agree dev nodes path upper (f a) (g a)) :
    Agree dev nodes path upper (x >>= f) (x >>= g) := by
  cases x with
  | error e => exact .refused rfl rfl
  | ok a => exact h a rfl

theorem Agree.extend {x y : Visited} (hbelow : Below dev upper added)
    (hnodup : (blocks nodes).Nodup → (blocks (nodes ++ added)).Nodup)
    (h : Agree dev (nodes ++ added) path upper x y) : Agree dev nodes path upper x y := by
  rcases h with ⟨hx, hy⟩ | ⟨checked, more, hx, hy, hmore, hadd⟩
  · exact .refused hx hy
  · rw [append_assoc] at hx hy hadd
    refine .accepted checked (added ++ more) hx hy ?_ fun h => hadd (hnodup h)
    exact fun v hv => (mem_append.mp hv).elim (hbelow v) (hmore v)

theorem agree_children (geo : Geometry) (total : CheckedSubtree)
    {x y : Lba → Option Bytes → Option Bytes → Visit → Visited}
    (hnode : Expected dev lba level lower upper isRoot node)
    (hchild : ∀ child lower upper nodes, Behind dev (some (node.level - 1)) lower nodes → path ⊆ blocks nodes →
      Agree dev nodes path upper (x child lower upper ⟨blocks nodes, nodes⟩) (y child lower upper ⟨path, nodes⟩))
    {remaining index : Nat} (hcount : index + remaining = node.items.length + 1)
    (hbehind : index ≤ node.items.length → Behind dev (some (node.level - 1)) (childLower node lower index) nodes)
    (hpath : path ⊆ blocks nodes) :
    Agree dev nodes path upper (visitChildren geo node lower upper x remaining index total ⟨blocks nodes, nodes⟩)
      (visitChildren geo node lower upper y remaining index total ⟨path, nodes⟩) := by
  induction remaining generalizing index total nodes with
  | zero => apply Agree.accepted total [] <;> simp [visitChildren, Below]
  | succ remaining ih =>
    rw [visitChildren, visitChildren]
    apply Agree.bind
    rintro ⟨child, low, high⟩ hat
    obtain ⟨rfl, rfl⟩ := childAt_eq_ok hat
    apply Agree.bind
    intro _ _
    rcases hchild child.lba _ _ nodes (hbehind (by omega)) hpath with ⟨hx, hy⟩ | ⟨checked, added, hx, hy, hbelow, hnodup⟩
    · exact .refused (by rw [hx]; rfl) (by rw [hy]; rfl)
    · rw [hx, hy, ok_bind, ok_bind]
      iterate 4
        apply Agree.bind
        intro _ _
      apply Agree.extend (hbelow.parent hnode) hnodup
      apply ih _ (by omega) _ fun _ hmem => blocks_subset (hpath hmem)
      exact fun hindex => (hbehind (by omega)).next hnode hbelow (by omega)

theorem agree_subtree {exhausted : CoreError} {fuel : Nat} (hroot : isRoot = true → upper = none)
    (hbehind : Behind dev level lower nodes) (hpath : path ⊆ blocks nodes) :
    Agree dev nodes path upper
      (validateSubtree dev geo spec true exhausted fuel lba level lower upper isRoot ⟨blocks nodes, nodes⟩)
      (validateSubtree dev geo spec false exhausted fuel lba level lower upper isRoot ⟨path, nodes⟩) := by
  induction fuel generalizing lba level lower upper isRoot nodes path with
  | zero => exact .refused rfl rfl
  | succ fuel ih =>
    by_cases hmem : lba ∈ blocks nodes
    · -- the one refuses the block, the other its node
      cases hy : validateSubtree dev geo spec false exhausted (fuel + 1) lba level lower upper isRoot ⟨path, nodes⟩ with
      | error e => exact .refused (refuseIf_bind_error hmem _ _) rfl
      | ok r =>
        obtain ⟨node, hread, -⟩ := of_bind (of_refuse hy).2
        exact absurd hmem (hbehind.fresh (expected_of_readNode hread))
    · rw [validateSubtree, validateSubtree, refuseIf_bind hmem, refuseIf_bind (fun h => hmem (hpath h))]
      apply Agree.bind
      intro node hread
      have hnode := expected_of_readNode hread
      have hnodup : (blocks nodes).Nodup → (blocks (nodes ++ [(lba, node)])).Nodup := by
        rw [blocks_concat]
        exact fun h => nodup_cons.mpr ⟨hmem, h⟩
      dsimp only
      rw [← blocks_concat]
      split_ifs with hleaf
      · exact .accepted _ [(lba, node)] rfl (by simp [Visit.leave]; rfl) (hnode.below hroot) hnodup
      · have hpositive : node.level ≠ 0 := by simpa [isLeaf] using hleaf
        have hlonger : lba :: path ⊆ blocks (nodes ++ [(lba, node)]) := by
          rw [blocks_concat]
          exact cons_subset_cons _ hpath
        apply Agree.extend (hnode.below hroot) hnodup
        rcases agree_children geo ⟨0, 1, node.level, none, none⟩ hnode
          (fun _ _ _ _ => ih (absurd · Bool.false_ne_true)) (Nat.zero_add (node.items.length + 1))
          (fun _ => hbehind.enter hnode hpositive) hlonger with ⟨hx, hy⟩ | ⟨checked, added, hx, hy, hbelow, hadded⟩
        · exact .refused (by rw [hx]; rfl) (by rw [hy]; rfl)
        · rw [hx, hy, ok_bind, ok_bind]
          apply Agree.bind
          intro _ _
          exact .accepted checked added rfl (by simp [Visit.leave]; rfl) hbelow hadded

theorem bind_congr_ok {α β : Type} {x : Except CoreError α} {f g : α → Except CoreError β}
    (h : ∀ a, x = .ok a → f a = g a) : (x >>= f) = (x >>= g) := by
  cases x with
  | error e => rfl
  | ok a => exact h a rfl

/-- A visit with more fuel than there are levels does not see the fuel. -/
theorem validateSubtree_fuel {retain : Bool} {exhausted exhausted' : CoreError} {fuel fuel' : Nat} {visit : Visit}
    (hfuel : level.getD maxTreeLevel < fuel) (hfuel' : level.getD maxTreeLevel < fuel') :
    validateSubtree dev geo spec retain exhausted fuel lba level lower upper isRoot visit =
      validateSubtree dev geo spec retain exhausted' fuel' lba level lower upper isRoot visit := by
  induction fuel generalizing fuel' lba level lower upper isRoot visit with
  | zero => omega
  | succ fuel ih =>
    cases fuel' with
    | zero => omega
    | succ fuel' =>
      rw [validateSubtree, validateSubtree]
      apply bind_congr_ok
      intro _ _
      apply bind_congr_ok
      intro node hread
      have hnode := expected_of_readNode hread
      have hlevel : node.level ≤ level.getD maxTreeLevel := by
        cases level with
        | none => exact hnode.holds.valid.1
        | some n => exact (hnode.level n rfl).ge
      dsimp only
      split_ifs with hleaf
      · rfl
      · have hpositive : node.level ≠ 0 := by simpa [isLeaf] using hleaf
        congr 2
        funext child lower upper visit
        apply ih <;> rw [Option.getD_some] <;> omega

/-- On any image, whichever blocks it repeats: the visit that remembers the path to a node accepts what the
visit that remembers every block accepts, with the same nodes in the same order and the same summary. No
block is visited twice, and neither visit is ever cut short. -/
theorem bounded_visit_agrees (dev : Device) (geo : Geometry) (spec : TreeSpec) (rootLba : Lba) :
    (∀ r, visitTreeNodesBounded dev geo spec rootLba = .ok r ↔ visitTreeNodes dev geo spec rootLba = .ok r) ∧
    (∀ summary nodes, visitTreeNodes dev geo spec rootLba = .ok (summary, nodes) → (nodes.map Prod.fst).Nodup) ∧
    ∀ retain exhausted fuel, validateSubtree dev geo spec retain exhausted (maxTreeLevel + 1 + fuel) rootLba
      none none none true ⟨[], []⟩ = validateSubtree dev geo spec retain depthError (maxTreeLevel + 1) rootLba
      none none none true ⟨[], []⟩ := by
  have h := @agree_subtree dev geo spec rootLba none true none none [] [] depthError (maxTreeLevel + 1) (fun _ => rfl)
    (by simp [Behind]) (by simp)
  refine ⟨fun r => ?_, fun summary nodes hvisit => ?_, fun retain exhausted fuel => ?_⟩
  · simp only [visitTreeNodesBounded, visitTreeNodes, visitNodes, bind_ok]
    change Agree dev [] [] none (validateSubtree dev geo spec true _ _ rootLba none none none true ⟨[], []⟩) _ at h
    rcases h with ⟨hx, hy⟩ | ⟨checked, added, hx, hy, -, -⟩ <;> simp [hx, hy]
  · obtain ⟨⟨checked, visit⟩, hx', hvisit⟩ := of_bind (after_check hvisit)
    obtain ⟨-, rfl⟩ := pure_pair_eq_ok.mp hvisit
    rcases h with ⟨hx, -⟩ | ⟨_, added, hx, -, -, hnodup⟩
    · cases hx.symm.trans hx'
    · cases hx.symm.trans hx'
      exact nodup_reverse.mp (hnodup nodup_nil)
  · apply validateSubtree_fuel <;> simp only [Option.getD_none] <;> omega

end Tree

end Afsplus
