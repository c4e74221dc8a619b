import Mathlib.Data.List.Pairwise
import Mathlib.Data.Prod.Basic
import Mathlib.Tactic.SplitIfs

/-!
# Sorted maps

A finite map as the list of its entries in ascending key order. The order is part of the type, so the
entries are determined by which of them are in the map, and a lookup, the entry at or below a key and a
range of keys all read off one list.
-/

structure SortedMap (κ ν : Type*) [LT κ] where
  entries : List (κ × ν)
  sorted : entries.Pairwise fun a b => a.1 < b.1

namespace SortedMap

open List hiding get insert

variable {κ ν : Type*} [LT κ] [DecidableEq κ]

instance [DecidableEq ν] : DecidableEq (SortedMap κ ν) := fun a b =>
  decidable_of_iff (a.entries = b.entries) ⟨fun h => by cases a; cases b; congr, fun h => h ▸ rfl⟩

def empty : SortedMap κ ν := ⟨[], .nil⟩

def get? (m : SortedMap κ ν) (key : κ) : Option ν :=
  (m.entries.find? fun entry => entry.1 = key).map Prod.snd

def keys (m : SortedMap κ ν) : List κ := m.entries.map Prod.fst

def values (m : SortedMap κ ν) : List ν := m.entries.map Prod.snd

/-- The entry with the greatest key that is not above `key`. -/
def floor? [DecidableLT κ] (m : SortedMap κ ν) (key : κ) : Option (κ × ν) :=
  (m.entries.filter fun entry => ¬key < entry.1).getLast?

/-- The entries with keys from `low` to `high`, both included. -/
def range [DecidableLT κ] (m : SortedMap κ ν) (low high : κ) : List (κ × ν) :=
  m.entries.filter fun entry => ¬entry.1 < low ∧ ¬high < entry.1

def erase (m : SortedMap κ ν) (key : κ) : SortedMap κ ν :=
  ⟨m.entries.filter fun entry => entry.1 ≠ key, m.sorted.filter _⟩

def insertEntry [DecidableLT κ] (key : κ) (value : ν) : List (κ × ν) → List (κ × ν)
  | [] => [(key, value)]
  | entry :: rest =>
    if key < entry.1 then (key, value) :: entry :: rest
    else if key = entry.1 then (key, value) :: rest
    else entry :: insertEntry key value rest

variable {m : SortedMap κ ν} {entry : κ × ν} {key : κ}

theorem mem_erase : entry ∈ (m.erase key).entries ↔ entry ∈ m.entries ∧ entry.1 ≠ key := by
  simp [erase]

theorem mem_foldl_erase {keys : List κ} :
    entry ∈ (keys.foldl erase m).entries ↔ entry ∈ m.entries ∧ entry.1 ∉ keys := by
  induction keys generalizing m with
  | nil => simp
  | cons key rest ih =>
    rw [foldl_cons, ih, mem_erase, mem_cons, not_or, and_assoc]

omit [DecidableEq κ] in
theorem floor?_eq_none [DecidableLT κ] (h : m.floor? key = none) : ∀ entry ∈ m.entries, key < entry.1 := by
  intro entry hmem
  have hnil := getLast?_eq_none_iff.mp h
  have hout := filter_eq_nil_iff.mp hnil entry hmem
  simpa using hout

theorem mem_of_mem_insertEntry [DecidableLT κ] {value : ν} {entries : List (κ × ν)}
    (h : entry ∈ insertEntry key value entries) : entry = (key, value) ∨ entry ∈ entries := by
  induction entries with
  | nil => exact .inl (mem_singleton.mp h)
  | cons first rest ih =>
    rw [insertEntry] at h
    split_ifs at h with hlt heq
    · exact mem_cons.mp h
    · exact (mem_cons.mp h).imp_right (mem_cons_of_mem _)
    · obtain rfl | h := mem_cons.mp h
      · exact .inr (mem_cons_self ..)
      · exact (ih h).imp_right (mem_cons_of_mem _)

variable [LE κ] [Std.LawfulOrderLT κ]

omit [DecidableEq κ] in
theorem eq_of_key_eq {a b : κ × ν} (ha : a ∈ m.entries) (hb : b ∈ m.entries) (hkey : a.1 = b.1) : a = b := by
  by_contra hne
  have hpair : m.entries.Pairwise fun a b => a.1 < b.1 ∨ b.1 < a.1 := m.sorted.imp .inl
  have : Std.Symm fun a b : κ × ν => a.1 < b.1 ∨ b.1 < a.1 := ⟨fun _ _ => Or.symm⟩
  obtain hlt | hlt := hpair.forall ha hb hne
  · exact Std.lt_irrefl (hkey ▸ hlt)
  · exact Std.lt_irrefl (hkey ▸ hlt)

theorem get?_eq_some {value : ν} : m.get? key = some value ↔ (key, value) ∈ m.entries := by
  rw [get?, Option.map_eq_some_iff]
  constructor
  · rintro ⟨entry, hfind, rfl⟩
    have hkey : entry.1 = key := by simpa using find?_some hfind
    rw [← hkey]
    exact mem_of_find?_eq_some hfind
  · intro hmem
    cases hfind : m.entries.find? fun entry => entry.1 = key with
    | none =>
      have hnone := find?_eq_none.mp hfind _ hmem
      simp at hnone
    | some entry =>
      have hkey : entry.1 = key := by simpa using find?_some hfind
      have hentry := mem_of_find?_eq_some hfind
      exact ⟨entry, rfl, by rw [eq_of_key_eq hentry hmem hkey]⟩

theorem get?_isSome : (m.get? key).isSome ↔ key ∈ m.keys := by
  rw [Option.isSome_iff_exists, keys, mem_map]
  constructor
  · rintro ⟨value, h⟩
    exact ⟨(key, value), get?_eq_some.mp h, rfl⟩
  · rintro ⟨⟨key, value⟩, hmem, rfl⟩
    exact ⟨value, get?_eq_some.mpr hmem⟩

theorem get?_eq_of_mem_iff {m m' : SortedMap κ ν}
    (h : ∀ value, (key, value) ∈ m.entries ↔ (key, value) ∈ m'.entries) : m.get? key = m'.get? key := by
  ext value
  rw [get?_eq_some, get?_eq_some]
  exact h value

theorem get?_erase (m : SortedMap κ ν) (key key' : κ) :
    (m.erase key).get? key' = if key' = key then none else m.get? key' := by
  split_ifs with hkey
  · rw [hkey]
    cases hget : (m.erase key).get? key with
    | none => rfl
    | some value =>
      rw [get?_eq_some, mem_erase] at hget
      exact absurd rfl hget.2
  · apply get?_eq_of_mem_iff
    intro other
    rw [mem_erase]
    simp [hkey]

@[simp]

theorem get?_erase_self (m : SortedMap κ ν) (key : κ) : (m.erase key).get? key = none := by
  rw [get?_erase, if_pos rfl]

theorem get?_erase_of_ne (m : SortedMap κ ν) {key key' : κ} (h : key' ≠ key) :
    (m.erase key).get? key' = m.get? key' := by
  rw [get?_erase, if_neg h]

variable [Std.IsLinearOrder κ]

omit [DecidableEq κ] in
theorem ext_mem {m m' : SortedMap κ ν} (h : ∀ entry, entry ∈ m.entries ↔ entry ∈ m'.entries) : m = m' := by
  have hnodup : ∀ m : SortedMap κ ν, m.entries.Nodup := by
    intro m
    apply m.sorted.imp
    rintro a b hlt rfl
    exact Std.lt_irrefl hlt
  have hperm := (perm_ext_iff_of_nodup (hnodup m) (hnodup m')).mpr h
  have heq : m.entries = m'.entries := by
    refine hperm.eq_of_pairwise (fun a b _ _ hab hba => ?_) m.sorted m'.sorted
    exact absurd (Std.lt_trans hab hba) Std.lt_irrefl
  cases m
  cases m'
  congr

variable [DecidableLT κ]

omit [DecidableEq κ] in
theorem floor?_eq_some (h : m.floor? key = some entry) :
    entry ∈ m.entries ∧ ¬key < entry.1 ∧ ∀ other ∈ m.entries, ¬key < other.1 → ¬entry.1 < other.1 := by
  have hmem := mem_of_getLast? h
  simp only [mem_filter, decide_eq_true_eq] at hmem
  refine ⟨hmem.1, hmem.2, fun other hoth hle hlt => ?_⟩
  have hkept : other ∈ m.entries.filter fun entry => ¬key < entry.1 := by
    rw [mem_filter]
    exact ⟨hoth, decide_eq_true hle⟩
  obtain ⟨front, hsplit⟩ := getLast?_eq_some_iff.mp h
  have hsort := m.sorted.filter fun entry => ¬key < entry.1
  rw [hsplit] at hkept hsort
  obtain hfront | hlast := mem_append.mp hkept
  · have hbefore := (pairwise_append.mp hsort).2.2 other hfront entry (mem_singleton_self _)
    exact Std.lt_irrefl (Std.lt_trans hlt hbefore)
  · rw [mem_singleton.mp hlast] at hlt
    exact Std.lt_irrefl hlt

theorem sorted_insertEntry (key : κ) (value : ν) {entries : List (κ × ν)}
    (h : entries.Pairwise fun a b => a.1 < b.1) : (insertEntry key value entries).Pairwise fun a b => a.1 < b.1 := by
  induction entries with
  | nil => exact pairwise_singleton _ _
  | cons first rest ih =>
    obtain ⟨hfirst, hrest⟩ := pairwise_cons.mp h
    rw [insertEntry]
    split_ifs with hlt heq
    · refine pairwise_cons.mpr ⟨fun other hoth => ?_, h⟩
      obtain rfl | hoth := mem_cons.mp hoth
      · exact hlt
      · exact Std.lt_trans hlt (hfirst other hoth)
    · exact pairwise_cons.mpr ⟨fun other hoth => heq ▸ hfirst other hoth, hrest⟩
    · refine pairwise_cons.mpr ⟨fun other hoth => ?_, ih hrest⟩
      obtain rfl | hoth := mem_of_mem_insertEntry hoth
      · exact Std.lt_of_le_of_ne (Std.not_lt.mp hlt) (Ne.symm heq)
      · exact hfirst other hoth

def insert (m : SortedMap κ ν) (key : κ) (value : ν) : SortedMap κ ν :=
  ⟨insertEntry key value m.entries, sorted_insertEntry key value m.sorted⟩

theorem mem_insert {value : ν} :
    entry ∈ (m.insert key value).entries ↔ entry = (key, value) ∨ entry ∈ m.entries ∧ entry.1 ≠ key := by
  obtain ⟨entries, hsort⟩ := m
  show entry ∈ insertEntry key value entries ↔ entry = (key, value) ∨ entry ∈ entries ∧ entry.1 ≠ key
  induction entries with
  | nil => simp [insertEntry]
  | cons first rest ih =>
    obtain ⟨hfirst, hrest⟩ := pairwise_cons.mp hsort
    rw [insertEntry]
    split_ifs with hlt heq
    · have hne : ∀ other ∈ first :: rest, other.1 ≠ key := by
        intro other hoth hkey
        obtain rfl | hoth := mem_cons.mp hoth
        · exact Std.lt_irrefl (hkey ▸ hlt)
        · exact Std.lt_irrefl (Std.lt_trans hlt (hkey ▸ hfirst other hoth))
      rw [mem_cons]
      exact or_congr_right (iff_self_and.mpr fun hmem => hne entry hmem)
    · have hne : ∀ other ∈ rest, other.1 ≠ key := fun other hoth hkey =>
        Std.lt_irrefl (heq ▸ hkey ▸ hfirst other hoth)
      rw [mem_cons, mem_cons]
      refine or_congr_right ⟨fun hmem => ⟨.inr hmem, hne entry hmem⟩, ?_⟩
      rintro ⟨rfl | hmem, hkey⟩
      · exact absurd heq.symm hkey
      · exact hmem
    · rw [mem_cons, mem_cons, ih hrest, or_and_right]
      have hoth : entry = first → entry.1 ≠ key := fun h => h ▸ Ne.symm heq
      constructor
      · rintro (h | h | h)
        · exact .inr (.inl ⟨h, hoth h⟩)
        · exact .inl h
        · exact .inr (.inr h)
      · rintro (h | ⟨h, -⟩ | h)
        · exact .inr (.inl h)
        · exact .inl h
        · exact .inr (.inr h)

/-- Later insertions replace earlier ones, so with distinct keys all of them are there. -/
theorem mem_foldl_insert {added : List (κ × ν)} (hdist : added.Pairwise fun a b => a.1 ≠ b.1) :
    entry ∈ (added.foldl (fun m new => m.insert new.1 new.2) m).entries ↔
      entry ∈ added ∨ entry ∈ m.entries ∧ ∀ new ∈ added, entry.1 ≠ new.1 := by
  induction added generalizing m with
  | nil => simp
  | cons first rest ih =>
    obtain ⟨hfirst, hrest⟩ := pairwise_cons.mp hdist
    rw [foldl_cons, ih hrest, mem_insert, mem_cons]
    constructor
    · rintro (h | ⟨rfl | ⟨h, hne⟩, hall⟩)
      · exact .inl (.inr h)
      · exact .inl (.inl rfl)
      · exact .inr ⟨h, forall_mem_cons.mpr ⟨hne, hall⟩⟩
    · rintro ((rfl | h) | ⟨h, hall⟩)
      · exact .inr ⟨.inl rfl, hfirst⟩
      · exact .inl h
      · obtain ⟨hne, hall⟩ := forall_mem_cons.mp hall
        exact .inr ⟨.inr ⟨h, hne⟩, hall⟩

theorem get?_insert (m : SortedMap κ ν) (key : κ) (value : ν) (key' : κ) :
    (m.insert key value).get? key' = if key' = key then some value else m.get? key' := by
  split_ifs with hkey
  · rw [hkey, get?_eq_some, mem_insert]
    exact .inl rfl
  · apply get?_eq_of_mem_iff
    intro other
    rw [mem_insert]
    simp [hkey]

@[simp]

theorem get?_insert_self (m : SortedMap κ ν) (key : κ) (value : ν) : (m.insert key value).get? key = some value := by
  rw [get?_insert, if_pos rfl]

theorem get?_insert_of_ne (m : SortedMap κ ν) {key key' : κ} (h : key' ≠ key) (value : ν) :
    (m.insert key value).get? key' = m.get? key' := by
  rw [get?_insert, if_neg h]

section Publication

variable {κ ν κ' ν' : Type*} [LE κ] [LT κ] [DecidableEq κ] [Std.LawfulOrderLT κ] [DecidableEq ν]
  [LE κ'] [LT κ'] [DecidableLT κ'] [DecidableEq κ'] [Std.LawfulOrderLT κ'] [Std.IsLinearOrder κ']

/-- The entries of `original` in `tree` exchanged for those of `current`, where they differ. -/
def publish (tree : SortedMap κ' ν') (original current : SortedMap κ ν) (entry : κ × ν → κ' × ν') (key : κ → κ') :
    SortedMap κ' ν' :=
  ((current.entries.filter fun r => original.get? r.1 ≠ some r.2).map entry).foldl (fun m new => m.insert new.1 new.2)
    (((original.keys.filter fun k => (current.get? k).isNone).map key).foldl erase tree)

variable {tree : SortedMap κ' ν'} {original current : SortedMap κ ν} {committed : Set (κ × ν)}
  {fixed : Set (κ' × ν')} {entry : κ × ν → κ' × ν'} {key : κ → κ'} {item : κ' × ν'}

/-- `tree` has the committed entries and some others, and `original` is what was read of them. -/
theorem mem_publish (htree : item ∈ tree.entries ↔ item ∈ fixed ∨ ∃ r ∈ committed, entry r = item)
    (hread : ∀ r ∈ original.entries, r ∈ committed)
    (hkey : ∀ r, r ∈ current.entries ∨ r ∈ committed → (entry r).1 = key r.1)
    (hinj : ∀ a b, a ∈ current.entries ∨ a ∈ committed → b ∈ current.entries ∨ b ∈ committed →
      key a.1 = key b.1 → a.1 = b.1)
    (hfixed : ∀ r, r ∈ current.entries ∨ r ∈ committed → ∀ item ∈ fixed, item.1 ≠ key r.1)
    (hcommitted : ∀ a ∈ committed, ∀ b ∈ committed, a.1 = b.1 → a = b)
    (hcurrent : ∀ a ∈ current.entries, ∀ b ∈ committed, b ∉ original.entries → a.1 = b.1 → a = b) :
    item ∈ (publish tree original current entry key).entries ↔
      item ∈ fixed ∨ ∃ r, (r ∈ current.entries ∨ r ∈ committed ∧ r ∉ original.entries) ∧ entry r = item := by
  have hupsert : ∀ new, new ∈ (current.entries.filter fun r => original.get? r.1 ≠ some r.2).map entry ↔
      ∃ r ∈ current.entries, r ∉ original.entries ∧ entry r = new := by
    intro new
    simp only [mem_map, mem_filter, decide_eq_true_eq, ne_eq, get?_eq_some, Prod.mk.eta, and_assoc]
  have hdelete : ∀ k, k ∈ (original.keys.filter fun k => (current.get? k).isNone).map key ↔
      ∃ r ∈ original.entries, current.get? r.1 = none ∧ key r.1 = k := by
    intro k
    simp [keys, and_assoc]
  have hdist : ((current.entries.filter fun r => original.get? r.1 ≠ some r.2).map entry).Pairwise
      fun a b => a.1 ≠ b.1 := by
    refine pairwise_map.mpr ((current.sorted.filter _).imp_of_mem fun {a b} ha hb hlt heq => ?_)
    have ha := (mem_filter.mp ha).1
    have hb := (mem_filter.mp hb).1
    rw [hkey a (.inl ha), hkey b (.inl hb)] at heq
    exact Std.lt_irrefl (hinj a b (.inl ha) (.inl hb) heq ▸ hlt)
  rw [publish, mem_foldl_insert hdist, mem_foldl_erase, htree, hupsert]
  simp only [hupsert, hdelete]
  constructor
  · rintro (⟨r, hr, -, rfl⟩ | ⟨⟨hitem | ⟨r, hr, rfl⟩, hkept⟩, hnew⟩)
    · exact .inr ⟨r, .inl hr, rfl⟩
    · exact .inl hitem
    · refine .inr ⟨r, ?_, rfl⟩
      by_cases hold : r ∈ original.entries
      · -- neither deleted nor replaced, so it is there still
        obtain ⟨value, hvalue⟩ := Option.ne_none_iff_exists'.mp fun hnone =>
          hkept ⟨r, hold, hnone, (hkey r (.inr hr)).symm⟩
        have hmem := get?_eq_some.mp hvalue
        by_cases hsame : (r.1, value) ∈ original.entries
        · rw [← eq_of_key_eq hsame hold rfl]
          exact .inl hmem
        · refine absurd ?_ (hnew _ ⟨_, hmem, hsame, rfl⟩)
          rw [hkey r (.inr hr), hkey _ (.inl hmem)]
      · exact .inr ⟨hr, hold⟩
  · rintro (hitem | ⟨r, hr, rfl⟩)
    · refine .inr ⟨⟨.inl hitem, ?_⟩, ?_⟩
      · rintro ⟨old, hold, -, heq⟩
        exact hfixed old (.inr (hread old hold)) item hitem heq.symm
      · rintro new ⟨other, hoth, -, rfl⟩
        rw [hkey other (.inl hoth)]
        exact hfixed other (.inl hoth) item hitem
    · by_cases hnew : r ∈ current.entries ∧ r ∉ original.entries
      · exact .inl ⟨r, hnew.1, hnew.2, rfl⟩
      have hold : r ∈ committed := hr.elim (fun hr => hread r (not_not.mp fun h => hnew ⟨hr, h⟩)) And.left
      refine .inr ⟨⟨.inr ⟨r, hold, rfl⟩, ?_⟩, ?_⟩
      · rintro ⟨old, hmem, hnone, heq⟩
        rw [hkey r (.inr hold)] at heq
        have hstart := hinj old r (.inr (hread old hmem)) (.inr hold) heq
        obtain hr | hr := hr
        · rw [hstart, get?_eq_some.mpr hr] at hnone
          cases hnone
        · exact hr.2 (hcommitted old (hread old hmem) r hold hstart ▸ hmem)
      · rintro new ⟨other, hoth, hchanged, rfl⟩ heq
        rw [hkey r (.inr hold), hkey other (.inl hoth)] at heq
        have hstart := hinj r other (.inr hold) (.inl hoth) heq
        obtain hr | hr := hr
        · exact hnew ⟨hr, eq_of_key_eq hr hoth hstart ▸ hchanged⟩
        · exact hnew ⟨hcurrent other hoth r hold hr.2 hstart.symm ▸ hoth, hr.2⟩

end Publication

end SortedMap
