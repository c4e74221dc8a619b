import Afsplus.Core.LifetimeEdit

/-!
# What the overlay says of each block

The records of the overlay write down one lifetime for each block they cover. Every edit changes that
assignment in the blocks of its run and nowhere else, and merging changes it nowhere.
-/

namespace Afsplus.Snapshot

open Wire Fallible Runs SortedMap

theorem lifetime_inj {a b : LifetimeRecord} (h : a.lifetime = b.lifetime) :
    a.birth = b.birth ∧ a.retirement = b.retirement := by
  simp only [LifetimeRecord.lifetime, Lifetime.mk.injEq] at h
  refine ⟨h.1, ?_⟩
  have h := h.2
  split at h <;> split at h <;> simp_all

def runsIn (records : SortedMap Nat LifetimeRecord) : Set LifetimeRun := { run | run ∈ records.entries }

/-- The records write down `assigned`. -/
structure Assigns (records : SortedMap Nat LifetimeRecord) (assigned : Nat → Option Lifetime) : Prop where
  layout : Layout (runsIn records)
  shows : Runs.Shows (runsIn records) assigned none

def InRange (range : Nat × Nat) (block : Nat) : Prop :=
  range.1 ≤ block ∧ block < range.1 + range.2

instance (range : Nat × Nat) (block : Nat) : Decidable (InRange range block) :=
  inferInstanceAs (Decidable (_ ∧ _))

def assignOn (range : Nat × Nat) (value : Option Lifetime → Option Lifetime)
    (assigned : Nat → Option Lifetime) (block : Nat) : Option Lifetime :=
  if InRange range block then value (assigned block) else assigned block

def Lifetime.retire (generation : Nat) (lifetime : Lifetime) : Lifetime :=
  { lifetime with retirement := some generation }

variable {records : SortedMap Nat LifetimeRecord} {assigned : Nat → Option Lifetime}
  {generation start blocks : Nat} {run : LifetimeRun}

theorem runsIn_insert {record : LifetimeRecord} (hnew : ∀ run ∈ runsIn records, run.1 ≠ start) :
    runsIn (records.insert start record) = insert (start, record) (runsIn records) := by
  ext run
  show run ∈ (records.insert start record).entries ↔ _
  rw [mem_insert, Set.mem_insert_iff]
  refine or_congr_right ⟨And.left, fun hrun => ⟨hrun, hnew run hrun⟩⟩

namespace Overlay

variable {overlay overlay' : Overlay}

theorem allocate_eq_ok (h : overlay.allocate generation start blocks = .ok overlay')
    (hassigns : Assigns overlay.current assigned) (hblks : 0 < blocks) :
    overlay'.original = overlay.original ∧ Assigns overlay'.current
        (assignOn (start, blocks) (fun _ => some ⟨generation, none⟩) assigned) ∧
      ∀ block, InRange (start, blocks) block → assigned block = none := by
  obtain ⟨hfree, h⟩ := of_refuse h
  replace h := after_check h
  rw [pure_ok.mp h]
  set new : LifetimeRun := (start, ⟨blocks, generation, 0⟩)
  -- the last record before the end of the range decides for all of them
  have hapart : ∀ run ∈ runsIn overlay.current, Apart new run := by
    intro run hrun
    have hlong : run.1 < run.1 + run.2.blocks := hassigns.layout.proper run hrun
    by_cases hbehind : start + blocks ≤ run.1
    · exact .inl hbehind
    refine .inr ?_
    show run.1 + run.2.blocks ≤ start
    cases hfloor : overlay.current.floor? (start + blocks - 1) with
    | none =>
      have := floor?_eq_none hfloor run hrun
      omega
    | some last =>
      obtain ⟨hlast, -, hgreatest⟩ := floor?_eq_some hfloor
      rw [hfloor] at hfree
      have hends : last.1 + last.2.blocks ≤ start := by simpa using hfree
      obtain hlt | heq := (not_lt.mp (hgreatest run hrun (by omega))).lt_or_eq
      · have hle : run.1 + run.2.blocks ≤ last.1 := hassigns.layout.stop_le_start hrun hlast hlt
        omega
      · rwa [hassigns.layout.eq_of_start hrun hlast heq]
  have hnone : ∀ block, Covers new block → ∀ run ∈ runsIn overlay.current, ¬Covers run block := by
    intro block hnew run hrun hcov
    have hlow : start ≤ block := hnew.1
    have hhigh : block < start + blocks := hnew.2
    have hlow' : run.1 ≤ block := hcov.1
    have hhigh' : block < run.1 + run.2.blocks := hcov.2
    obtain hle | hle := hapart run hrun
    · have hle : start + blocks ≤ run.1 := hle
      omega
    · have hle : run.1 + run.2.blocks ≤ start := hle
      omega
  have hruns : runsIn (overlay.current.insert start ⟨blocks, generation, 0⟩)
      = insert new (runsIn overlay.current) := by
    refine runsIn_insert fun run hrun hstart => ?_
    have hlong : run.1 < run.1 + run.2.blocks := hassigns.layout.proper run hrun
    refine hnone start ⟨le_rfl, show start < start + blocks by omega⟩ run hrun ?_
    exact ⟨show run.1 ≤ start by omega, show start < run.1 + run.2.blocks by omega⟩
  refine ⟨rfl, ⟨?_, ?_⟩, fun block hblk => hassigns.shows.outside block (hnone block hblk)⟩
  · show Layout (runsIn (overlay.current.insert start ⟨blocks, generation, 0⟩))
    rw [hruns]
    exact hassigns.layout.insert (show start < start + blocks by omega) hapart
  · show Runs.Shows (runsIn (overlay.current.insert start ⟨blocks, generation, 0⟩)) _ none
    rw [hruns]
    refine hassigns.shows.insert (fun block hout => if_neg hout) (fun block hin => if_pos hin) ?_
    intro run hrun block hblk hnew
    exact hnone block hnew run hrun hblk

/-- What is left of a record when `[position, high)` of it is retired. -/
def pieces (generation position high : Nat) (run : LifetimeRun) : Set LifetimeRun :=
  { piece | (run.1 < position ∧ piece = (run.1, { run.2 with blocks := position - run.1 })) ∨
    piece = (position, { run.2 with blocks := high - position, retirement := generation }) ∨
    (high < run.1 + run.2.blocks ∧
      piece = (high, { run.2 with blocks := run.1 + run.2.blocks - high })) }

section Pieces

variable {position high : Nat} (hlow : run.1 ≤ position) (hlt : position < high)
  (hhigh : high ≤ run.1 + run.2.blocks)
include hlow hlt hhigh

omit hlow hhigh in
theorem pieces_layout : Layout (pieces generation position high run) := by
  refine ⟨?_, ?_⟩
  · rintro piece (⟨hbefore, rfl⟩ | rfl | ⟨hbehind, rfl⟩)
    · show run.1 < run.1 + (position - run.1)
      omega
    · show position < position + (high - position)
      omega
    · show high < high + (run.1 + run.2.blocks - high)
      omega
  · rintro a (⟨hbefore, rfl⟩ | rfl | ⟨hbehind, rfl⟩) b (⟨hbefore', rfl⟩ | rfl | ⟨hbehind', rfl⟩) hne
    · exact absurd rfl hne
    · exact .inl (show run.1 + (position - run.1) ≤ position by omega)
    · exact .inl (show run.1 + (position - run.1) ≤ high by omega)
    · exact .inr (show run.1 + (position - run.1) ≤ position by omega)
    · exact absurd rfl hne
    · exact .inl (show position + (high - position) ≤ high by omega)
    · exact .inr (show run.1 + (position - run.1) ≤ high by omega)
    · exact .inr (show position + (high - position) ≤ high by omega)
    · exact absurd rfl hne

variable {piece : LifetimeRun}

theorem pieces_within (hpiece : piece ∈ pieces generation position high run) :
    Run.start run ≤ Run.start piece ∧ Run.stop piece ≤ Run.stop run := by
  show run.1 ≤ piece.1 ∧ piece.1 + piece.2.blocks ≤ run.1 + run.2.blocks
  obtain ⟨hbefore, rfl⟩ | rfl | ⟨hbehind, rfl⟩ := hpiece
  · dsimp only
    omega
  · dsimp only
    omega
  · dsimp only
    omega

theorem exists_piece {block : Nat} (hblk : Covers run block) :
    ∃ piece ∈ pieces generation position high run, Covers piece block := by
  have hstart : run.1 ≤ block := hblk.1
  have hstop : block < run.1 + run.2.blocks := hblk.2
  by_cases hbefore : block < position
  · exact ⟨_, .inl ⟨by omega, rfl⟩, hstart, show block < run.1 + (position - run.1) by omega⟩
  by_cases hinside : block < high
  · exact ⟨_, .inr (.inl rfl), not_lt.mp hbefore, show block < position + (high - position) by omega⟩
  · exact ⟨_, .inr (.inr ⟨by omega, rfl⟩), not_lt.mp hinside,
      show block < high + (run.1 + run.2.blocks - high) by omega⟩

omit hlow hhigh in
theorem pieces_label (hlive : run.2.retirement = 0) (hgen : generation ≠ 0)
    (hpiece : piece ∈ pieces generation position high run) {block : Nat} (hblk : Covers piece block) :
    Run.label piece = if InRange (position, high - position) block
      then some ⟨run.2.birth, some generation⟩ else some ⟨run.2.birth, none⟩ := by
  have hstart : piece.1 ≤ block := hblk.1
  have hstop : block < piece.1 + piece.2.blocks := hblk.2
  have hrng : InRange (position, high - position) block ↔ position ≤ block ∧ block < high := by
    show position ≤ block ∧ block < position + (high - position) ↔ _
    omega
  show some piece.2.lifetime = _
  simp only [hrng]
  obtain ⟨hbefore, rfl⟩ | rfl | ⟨hbehind, rfl⟩ := hpiece
  · dsimp only at hstart hstop
    rw [if_neg (by omega), LifetimeRecord.lifetime, if_pos hlive]
  · dsimp only at hstart hstop
    rw [if_pos (by omega), LifetimeRecord.lifetime, if_neg hgen]
  · dsimp only at hstart hstop
    rw [if_neg (by omega), LifetimeRecord.lifetime, if_pos hlive]

end Pieces

variable {position high : Nat}

theorem runsIn_retired {low : Nat} {record : LifetimeRecord}
    (hlay : Layout (runsIn records)) (hmem : (low, record) ∈ runsIn records)
    (hlow : low ≤ position) (hlt : position < high) (hhigh : high ≤ low + record.blocks) :
    runsIn (
      let current := records.erase low
      let current := if low < position then
          current.insert low { record with blocks := position - low }
        else current
      let current := current.insert position
        { record with blocks := high - position, retirement := generation }
      if high < low + record.blocks then
        current.insert high { record with blocks := low + record.blocks - high }
      else current)
      = exchange (runsIn records) (low, record) (pieces generation position high (low, record)) := by
  have hunique : ∀ other ∈ runsIn records, ∀ block, low ≤ block →
      block < low + record.blocks → other.1 = block → other = (low, record) := by
    rintro other hoth block hfirst hlast rfl
    exact hlay.eq_of_covers hoth hmem (hlay.covers_start hoth) ⟨hfirst, hlast⟩
  have herase : runsIn (records.erase low) = { other ∈ runsIn records | other ≠ (low, record) } := by
    ext other
    show other ∈ (records.erase low).entries ↔ _
    rw [mem_erase]
    refine and_congr_right fun hoth => not_congr ⟨fun hkey => ?_, fun heq => by rw [heq]⟩
    exact hunique other hoth low le_rfl (by omega) hkey
  set left := if low < position then
      (records.erase low).insert low { record with blocks := position - low }
    else records.erase low with hleftDef
  have hleft : runsIn left = { other ∈ runsIn records | other ≠ (low, record) } ∪
      { piece | low < position ∧ piece = (low, { record with blocks := position - low }) } := by
    rw [hleftDef]
    by_cases hbefore : low < position
    · rw [if_pos hbefore, runsIn_insert, herase]
      · ext piece
        simp [hbefore, or_comm]
      · rw [herase]
        rintro other ⟨hoth, hne⟩ hkey
        exact hne (hunique other hoth low le_rfl (by omega) hkey)
    · rw [if_neg hbefore, herase]
      ext piece
      simp [hbefore]
  have hmiddle : runsIn (left.insert position { record with blocks := high - position, retirement := generation })
      = insert (position, { record with blocks := high - position, retirement := generation })
        (runsIn left) := by
    refine runsIn_insert fun other hoth hkey => ?_
    rw [hleft] at hoth
    obtain ⟨hoth, hne⟩ | ⟨hbefore, rfl⟩ := hoth
    · exact hne (hunique other hoth position hlow (by omega) hkey)
    · exact absurd hkey hbefore.ne
  dsimp only
  by_cases hbehind : high < low + record.blocks
  · rw [if_pos hbehind, runsIn_insert, hmiddle, hleft]
    · ext piece
      simp only [exchange, pieces, Set.mem_insert_iff, Set.mem_union, Set.mem_ofPred_eq, hbehind, true_and]
      tauto
    · rw [hmiddle, hleft]
      rintro other (rfl | ⟨hoth, hne⟩ | ⟨hbefore, rfl⟩) hkey
      · exact absurd hkey hlt.ne
      · exact hne (hunique other hoth high (by omega) hbehind hkey)
      · exact absurd hkey (by dsimp only; omega)
  · rw [if_neg hbehind, hmiddle, hleft]
    ext piece
    simp only [exchange, pieces, Set.mem_insert_iff, Set.mem_union, Set.mem_ofPred_eq, hbehind, false_and, or_false]
    tauto

theorem retireStep_eq_ok {stop : Nat} (h : overlay.retireStep generation stop position = .ok (high, overlay'))
    (hassigns : Assigns overlay.current assigned) (hpstn : position < stop) :
    overlay'.original = overlay.original ∧ position < high ∧ high ≤ stop ∧ Assigns overlay'.current
        (assignOn (position, high - position) (Option.map (Lifetime.retire generation)) assigned) ∧
      ∀ block, InRange (position, high - position) block →
        ∃ birth, assigned block = some ⟨birth, none⟩ ∧ birth < generation := by
  unfold retireStep at h
  cases hfloor : overlay.current.floor? position with
  | none =>
    rw [hfloor] at h
    cases h
  | some run =>
    obtain ⟨low, record⟩ := run
    rw [hfloor] at h
    dsimp only at h
    obtain ⟨hrun, hlow, -⟩ := floor?_eq_some hfloor
    obtain ⟨hfit, h⟩ := of_refuse h
    replace h := after_check h
    simp only [not_or, not_le, not_lt, ne_eq, not_not] at hfit hlow
    obtain ⟨hinside, hlive, hbirth⟩ := hfit
    obtain ⟨hhigh, hoverlay⟩ := pure_pair_eq_ok.mp h
    have hlt : position < high := by omega
    have hbound : high ≤ low + record.blocks := by omega
    have hmem : (low, record) ∈ runsIn overlay.current := hrun
    have hruns : runsIn overlay'.current = exchange (runsIn overlay.current) (low, record)
            (pieces generation position high (low, record)) := by
      rw [hoverlay, hhigh]
      exact runsIn_retired hassigns.layout hmem hlow (hhigh ▸ hlt) (hhigh ▸ hbound)
    refine ⟨by rw [hoverlay], hlt, by omega, ⟨?_, ?_⟩, ?_⟩
    · rw [hruns]
      exact hassigns.layout.exchange hmem (pieces_layout hlt) fun piece hpiece => pieces_within hlow hlt hbound hpiece
    · rw [hruns]
      have hvalue : ∀ block, Covers (low, record) block → assigned block = some ⟨record.birth, none⟩ := by
        intro block hblk
        rw [hassigns.shows.inside _ hmem block hblk]
        show some record.lifetime = _
        rw [LifetimeRecord.lifetime, if_pos hlive]
      refine hassigns.shows.exchange hassigns.layout hmem ?_ ?_ ?_
      · intro block hout
        refine if_neg fun hin => hout ⟨?_, ?_⟩
        · exact hlow.trans hin.1
        · have hin : block < position + (high - position) := hin.2
          show block < low + record.blocks
          omega
      · intro piece hpiece block hblk
        have hcov : Covers (low, record) block := by
          obtain ⟨hfirst, hlast⟩ := pieces_within hlow hlt hbound hpiece
          exact ⟨hfirst.trans hblk.1, hblk.2.trans_le hlast⟩
        rw [pieces_label hlt hlive (by omega) hpiece hblk, assignOn,
          hvalue block hcov]
        rfl
      · intro block hblk hnone
        obtain ⟨piece, hpiece, hcov⟩ := @exists_piece generation _ _ _ hlow hlt hbound block hblk
        exact absurd hcov (hnone piece hpiece)
    · intro block hblk
      have hfirst : position ≤ block := hblk.1
      have hlast : block < position + (high - position) := hblk.2
      refine ⟨record.birth, ?_, hbirth⟩
      rw [hassigns.shows.inside _ hmem block ⟨hlow.trans hfirst, show block < low + record.blocks by omega⟩]
      show some record.lifetime = _
      rw [LifetimeRecord.lifetime, if_pos hlive]

theorem assignOn_assignOn {low middle : Nat} {value : Option Lifetime → Option Lifetime}
    (hlow : low ≤ middle) (hhigh : middle ≤ high) :
    assignOn (middle, high - middle) value (assignOn (low, middle - low) value assigned)
      = assignOn (low, high - low) value assigned := by
  funext block
  have hrng : ∀ low high, low ≤ high → (InRange (low, high - low) block ↔ low ≤ block ∧ block < high) := by
    intro low high hle
    show low ≤ block ∧ block < low + (high - low) ↔ _
    omega
  simp only [assignOn, hrng low middle hlow, hrng middle high hhigh, hrng low high (hlow.trans hhigh)]
  by_cases hbefore : block < middle
  · rw [if_neg (by omega)]
    exact if_congr (by omega) rfl rfl
  · rw [if_neg (show ¬(low ≤ block ∧ block < middle) by omega)]
    exact if_congr (by omega) rfl rfl

theorem retireFrom_eq_ok {stop fuel : Nat} (h : retireFrom generation stop fuel position overlay = .ok overlay')
    (hassigns : Assigns overlay.current assigned) (hfuel : stop - position ≤ fuel) (hpstn : position ≤ stop) :
    overlay'.original = overlay.original ∧ Assigns overlay'.current
        (assignOn (position, stop - position) (Option.map (Lifetime.retire generation)) assigned) ∧
      ∀ block, InRange (position, stop - position) block →
        ∃ birth, assigned block = some ⟨birth, none⟩ ∧ birth < generation := by
  induction fuel generalizing position overlay assigned with
  | zero =>
    rw [← Except.ok.inj h]
    have hnone : ∀ block, ¬InRange (position, stop - position) block := by
      rintro block ⟨hfirst, hlast⟩
      dsimp only at hfirst hlast
      omega
    refine ⟨rfl, ?_, fun block hblk => absurd hblk (hnone block)⟩
    have hsame : assignOn (position, stop - position) (Option.map (Lifetime.retire generation)) assigned
        = assigned := funext fun block => if_neg (hnone block)
    rwa [hsame]
  | succ fuel ih =>
    rw [retireFrom] at h
    by_cases hmore : position < stop
    · rw [if_pos hmore] at h
      obtain ⟨⟨high, middle⟩, hstep, h⟩ := of_bind h
      obtain ⟨horig, hlt, hle, hmiddle, hlive⟩ := retireStep_eq_ok hstep hassigns hmore
      obtain ⟨horig', hend, hlive'⟩ := ih h hmiddle (by omega) hle
      rw [assignOn_assignOn hlt.le hle] at hend
      refine ⟨horig'.trans horig, hend, fun block hblk => ?_⟩
      have hfirst : position ≤ block := hblk.1
      have hlast : block < position + (stop - position) := hblk.2
      by_cases hbefore : block < high
      · exact hlive block ⟨hfirst, show block < position + (high - position) by omega⟩
      · have hafter : InRange (high, stop - high) block :=
          ⟨not_lt.mp hbefore, show block < high + (stop - high) by omega⟩
        have hvalue := hlive' block hafter
        rwa [assignOn, if_neg] at hvalue
        rintro ⟨-, hinside⟩
        dsimp only at hinside
        omega
    · rw [if_neg hmore] at h
      have heq : position = stop := by omega
      refine ih ?_ hassigns (by omega) hpstn
      cases fuel with
      | zero => exact h
      | succ fuel =>
        rw [retireFrom, if_neg hmore]
        exact h

theorem retire_eq_ok (h : overlay.retire generation start blocks = .ok overlay')
    (hassigns : Assigns overlay.current assigned) :
    overlay'.original = overlay.original ∧ Assigns overlay'.current
        (assignOn (start, blocks) (Option.map (Lifetime.retire generation)) assigned) ∧
      ∀ block, InRange (start, blocks) block → ∃ birth, assigned block = some ⟨birth, none⟩ ∧ birth < generation := by
  have hspec := retireFrom_eq_ok h hassigns (by omega) (by omega)
  rwa [Nat.add_sub_cancel_left] at hspec

/-! ### Transfers -/

theorem transfer_eq_ok (h : overlay.transfer run = .ok overlay') (hassigns : Assigns overlay.current assigned) :
    overlay'.original = overlay.original ∧ run ∈ runsIn overlay.original ∧
      Assigns overlay'.current (assignOn (run.1, run.2.blocks) (fun _ => none) assigned) ∧
      ∀ block, InRange (run.1, run.2.blocks) block → assigned block = some run.2.lifetime := by
  obtain ⟨hfound, h⟩ := of_refuse h
  rw [not_or, not_not, not_not] at hfound
  have hmem : run ∈ runsIn overlay.current := get?_eq_some.mp hfound.2
  rw [pure_ok.mp h]
  have herase : runsIn (overlay.current.erase run.1) = exchange (runsIn overlay.current) run ∅ := by
    ext other
    show other ∈ (overlay.current.erase run.1).entries ↔ _
    rw [mem_erase, exchange, Set.union_empty]
    refine and_congr_right fun hoth => not_congr ⟨fun hkey => ?_, fun heq => by rw [heq]⟩
    exact eq_of_key_eq hoth hmem hkey
  refine ⟨rfl, get?_eq_some.mp hfound.1, ⟨?_, ?_⟩, fun block hblk => hassigns.shows.inside run hmem block hblk⟩
  · show Layout (runsIn (overlay.current.erase run.1))
    rw [herase]
    exact hassigns.layout.exchange hmem ⟨fun _ h => absurd h (Set.notMem_empty _),
      fun _ h => absurd h (Set.notMem_empty _)⟩ fun _ h => absurd h (Set.notMem_empty _)
  · show Runs.Shows (runsIn (overlay.current.erase run.1)) _ none
    rw [herase]
    refine hassigns.shows.exchange hassigns.layout hmem (fun block hout => if_neg hout) ?_ ?_
    · exact fun _ h => absurd h (Set.notMem_empty _)
    · exact fun block hblk _ => if_pos hblk

theorem mergeInto_eq_ok {previous : LifetimeRun} {rest merged : List LifetimeRun}
    (h : mergeInto previous rest = .ok merged) (hproper : ∀ run ∈ previous :: rest, Run.start run < Run.stop run) :
    ∃ first others, merged = first :: others ∧ first.1 = previous.1 ∧
      Run.label first = Run.label previous ∧ Runs.Merged (previous :: rest) merged := by
  induction rest generalizing previous merged with
  | nil =>
    rw [← Except.ok.inj h]
    exact ⟨previous, [], rfl, rfl, rfl, .singleton (hproper previous (List.mem_cons_self ..))⟩
  | cons run rest ih =>
    obtain ⟨hprev, hrest⟩ := List.forall_mem_cons.mp hproper
    obtain ⟨hrun, hothers⟩ := List.forall_mem_cons.mp hrest
    rw [mergeInto] at h
    obtain ⟨hover, h⟩ := of_refuse h
    split at h
    case isTrue hsame =>
      obtain ⟨htouch, hbirth, hretirement⟩ := hsame
      set joined : LifetimeRun := (previous.1, { previous.2 with blocks := previous.2.blocks + run.2.blocks })
      have hlong : previous.1 < previous.1 + previous.2.blocks := hprev
      have hjoined : Run.start joined < Run.stop joined := by
        show previous.1 < previous.1 + (previous.2.blocks + run.2.blocks)
        omega
      obtain ⟨first, others, hmerged, hstart, hlabel, hspec⟩ := ih h (List.forall_mem_cons.mpr ⟨hjoined, hothers⟩)
      refine ⟨first, others, hmerged, hstart, hlabel, ?_⟩
      refine hspec.join hprev hrun htouch ?_ rfl ?_ rfl
      · show some previous.2.lifetime = some run.2.lifetime
        rw [LifetimeRecord.lifetime, LifetimeRecord.lifetime, hbirth, hretirement]
      · show previous.1 + (previous.2.blocks + run.2.blocks) = run.1 + run.2.blocks
        omega
    case isFalse hoth =>
      obtain ⟨tail, htail, h⟩ := of_bind h
      obtain ⟨first, others, rfl, hstart, hlabel, hspec⟩ := ih htail hrest
      rw [pure_ok.mp h]
      refine ⟨previous, first :: others, rfl, rfl, rfl, hspec.cons hprev (not_lt.mp hover) ?_ hstart hlabel⟩
      intro htouch hequal
      obtain ⟨hbirth, hretirement⟩ := lifetime_inj (Option.some.inj hequal)
      exact hoth ⟨htouch, hbirth, hretirement⟩

theorem canonicalize_eq_ok (h : overlay.canonicalize = .ok overlay') (hassigns : Assigns overlay.current assigned) :
    overlay'.original = overlay.original ∧ Canonical (runsIn overlay'.current) assigned none := by
  obtain ⟨merged, hmerge, h⟩ := of_bind h
  have hspec : Runs.Merged overlay.current.entries merged := by
    cases hents : overlay.current.entries with
    | nil =>
      rw [hents] at hmerge
      rw [← Except.ok.inj hmerge]
      exact ⟨fun _ h => absurd h List.not_mem_nil, .nil, fun _ h => absurd h List.not_mem_nil,
        fun _ _ => Iff.rfl⟩
    | cons first rest =>
      rw [hents] at hmerge
      have hproper : ∀ run ∈ first :: rest, Run.start run < Run.stop run := by
        intro run hrun
        apply hassigns.layout.proper
        show run ∈ overlay.current.entries
        rwa [hents]
      obtain ⟨-, -, -, -, -, hspec⟩ := mergeInto_eq_ok hmerge hproper
      exact hspec
  have hruns : runsIn (merged.foldl (fun map run => map.insert run.1 run.2) .empty)
      = { run | run ∈ merged } := by
    have hdist : merged.Pairwise fun a b => a.1 ≠ b.1 := by
      refine hspec.sorted.imp_of_mem fun {a b} ha _ hle => ?_
      have hlong : a.1 < a.1 + a.2.blocks := hspec.proper a ha
      have hle : a.1 + a.2.blocks ≤ b.1 := hle
      omega
    ext run
    show run ∈ (merged.foldl (fun map run => map.insert run.1 run.2) SortedMap.empty).entries ↔ _
    rw [mem_foldl_insert hdist]
    exact or_iff_left fun h => absurd h.1 List.not_mem_nil
  rw [pure_ok.mp h]
  refine ⟨rfl, ?_⟩
  show Canonical (runsIn (merged.foldl (fun map run => map.insert run.1 run.2) .empty)) assigned none
  rw [hruns]
  exact ⟨layout_of_pairwise hspec.proper hspec.sorted, hspec.shows hassigns.shows, hspec.maximal,
    fun run _ => Option.some_ne_none _⟩

/-- Edits of one kind, one after the other. `Needs` is what an edit asks of the blocks of its range; an
edited block does not meet it again, so the ranges of a list that goes through do not overlap. -/
theorem foldlM_eq_ok {ι : Type} {step : Overlay → ι → Except CoreError Overlay} {items : List ι}
    (range : ι → Nat × Nat) (value : Option Lifetime → Option Lifetime)
    (Needs : ι → Option Lifetime → Prop) {original : SortedMap Nat LifetimeRecord}
    (hstep : ∀ item ∈ items, ∀ overlay overlay' assigned, overlay.original = original →
      step overlay item = .ok overlay' → Assigns overlay.current assigned →
      overlay'.original = original ∧ Assigns overlay'.current (assignOn (range item) value assigned) ∧
        ∀ block, InRange (range item) block → Needs item (assigned block))
    (honce : ∀ item before, ¬Needs item (value before)) (horig : overlay.original = original)
    (h : items.foldlM step overlay = .ok overlay') (hassigns : Assigns overlay.current assigned) :
    overlay'.original = original ∧ Assigns overlay'.current (fun block =>
        if ∃ item ∈ items, InRange (range item) block then value (assigned block) else assigned block) ∧
      ∀ item ∈ items, ∀ block, InRange (range item) block → Needs item (assigned block) := by
  induction items generalizing overlay assigned with
  | nil =>
    rw [List.foldlM_nil, pure_ok] at h
    rw [h]
    refine ⟨horig, ?_, fun _ h => absurd h List.not_mem_nil⟩
    simpa using hassigns
  | cons item items ih =>
    obtain ⟨hitem, hitems⟩ := List.forall_mem_cons.mp hstep
    rw [List.foldlM_cons] at h
    obtain ⟨middle, hmiddle, h⟩ := of_bind h
    obtain ⟨hsame, hassigned, hneeds⟩ := hitem overlay middle assigned horig hmiddle hassigns
    obtain ⟨hsame', hassigned', hneeds'⟩ := ih hitems hsame h hassigned
    have hlater : ∀ other ∈ items, ∀ block, InRange (range other) block → ¬InRange (range item) block := by
      intro other hoth block hblk hin
      have hagain := hneeds' other hoth block hblk
      rw [assignOn, if_pos hin] at hagain
      exact honce other _ hagain
    refine ⟨hsame', ?_, List.forall_mem_cons.mpr ⟨hneeds, fun other hoth block hblk => ?_⟩⟩
    · convert hassigned' using 1
      funext block
      by_cases hlist : ∃ other ∈ items, InRange (range other) block
      · obtain ⟨other, hoth, hblk⟩ := hlist
        rw [if_pos ⟨other, List.mem_cons_of_mem _ hoth, hblk⟩, if_pos ⟨other, hoth, hblk⟩,
          assignOn, if_neg (hlater other hoth block hblk)]
      · rw [if_neg hlist, assignOn]
        refine if_congr ?_ rfl rfl
        rw [List.exists_mem_cons_iff]
        exact or_iff_left hlist
    · have hvalue := hneeds' other hoth block hblk
      rwa [assignOn, if_neg (hlater other hoth block hblk)] at hvalue

end Overlay

namespace LifetimeChanges

variable (changes : LifetimeChanges) (block : Nat)

def Allocates : Prop := ∃ range ∈ changes.allocations, InRange range block

def Retires : Prop := ∃ range ∈ changes.retirements, InRange range block

def Transfers : Prop := ∃ run ∈ changes.transfers, InRange (run.1, run.2.blocks) block

instance : Decidable (changes.Allocates block) := inferInstanceAs (Decidable (∃ _ ∈ _, _))

instance : Decidable (changes.Retires block) := inferInstanceAs (Decidable (∃ _ ∈ _, _))

instance : Decidable (changes.Transfers block) := inferInstanceAs (Decidable (∃ _ ∈ _, _))

/-- What the changes make of an assignment, block by block. -/
def applied (newGeneration : Nat) (assigned : Nat → Option Lifetime) : Option Lifetime :=
  if changes.Allocates block then some ⟨newGeneration, none⟩
  else if changes.Retires block then (assigned block).map (Lifetime.retire newGeneration)
  else if changes.Transfers block then none
  else assigned block

end LifetimeChanges

/-- What an edit that goes through asks of the blocks it changes. -/
structure Allowed (newGeneration : Nat) (changes : LifetimeChanges) (assigned : Nat → Option Lifetime) :
    Prop where
  allocated : ∀ block, changes.Allocates block → assigned block = none
  retired : ∀ block, changes.Retires block →
    ∃ birth, assigned block = some ⟨birth, none⟩ ∧ birth < newGeneration
  transferred : ∀ run ∈ changes.transfers, ∀ block, InRange (run.1, run.2.blocks) block →
    assigned block = some run.2.lifetime

variable {newGeneration : Nat} {changes : LifetimeChanges}

theorem Allowed.exclusive (h : Allowed newGeneration changes assigned)
    (hretired : ∀ run ∈ changes.transfers, run.2.retirement ≠ 0) (block : Nat) :
    (changes.Allocates block → ¬changes.Retires block) ∧
      (changes.Transfers block → ¬changes.Allocates block ∧ ¬changes.Retires block) := by
  refine ⟨fun hallocs hretires => ?_, ?_⟩
  · obtain ⟨birth, hvalue, -⟩ := h.retired block hretires
    rw [h.allocated block hallocs] at hvalue
    cases hvalue
  · rintro ⟨run, hrun, hblk⟩
    have hvalue := h.transferred run hrun block hblk
    refine ⟨fun hallocs => ?_, fun hretires => ?_⟩
    · rw [h.allocated block hallocs] at hvalue
      cases hvalue
    · obtain ⟨birth, hlive, -⟩ := h.retired block hretires
      rw [hlive, LifetimeRecord.lifetime, if_neg (hretired run hrun)] at hvalue
      cases hvalue

theorem editOverlay_eq_ok {overlay overlay' : Overlay}
    (h : editOverlay newGeneration changes overlay = .ok overlay') (hassigns : Assigns overlay.original assigned)
    (hnonempty : ∀ range ∈ changes.allocations, 0 < range.2)
    (hretired : ∀ run ∈ changes.transfers, run.2.retirement ≠ 0) :
    overlay'.original = overlay.original ∧ Allowed newGeneration changes assigned ∧
      Canonical (runsIn overlay'.current) (changes.applied · newGeneration assigned) none := by
  obtain ⟨first, hfirst, h⟩ := of_bind h
  obtain ⟨second, hsecond, h⟩ := of_bind h
  obtain ⟨third, hthird, h⟩ := of_bind h
  obtain ⟨horig, hassigned, hfree⟩ := Overlay.foldlM_eq_ok id
    (fun _ => some ⟨newGeneration, none⟩) (fun _ before => before = none)
    (fun range hrng overlay overlay' assigned horig hstep hassigns => by
      obtain ⟨hsame, hspec⟩ := Overlay.allocate_eq_ok hstep hassigns (hnonempty range hrng)
      exact ⟨hsame.trans horig, hspec⟩)
    (fun _ _ => Option.some_ne_none _) rfl hfirst hassigns
  obtain ⟨horig, hassigned, hlive⟩ := Overlay.foldlM_eq_ok id (Option.map (Lifetime.retire newGeneration))
    (fun _ before => ∃ birth, before = some ⟨birth, none⟩ ∧ birth < newGeneration)
    (fun range hrng overlay overlay' assigned horig hstep hassigns => by
      obtain ⟨hsame, hspec⟩ := Overlay.retire_eq_ok hstep hassigns
      exact ⟨hsame.trans horig, hspec⟩)
    (by
      rintro _ before ⟨birth, hvalue, -⟩
      obtain ⟨lifetime, -, hretire⟩ := Option.map_eq_some_iff.mp hvalue
      cases hretire) horig hsecond hassigned
  obtain ⟨horig, hassigned, hmoved⟩ := Overlay.foldlM_eq_ok (fun run => (run.1, run.2.blocks))
    (fun _ => none) (fun run before => run ∈ runsIn overlay.original ∧ before = some run.2.lifetime)
    (fun run hrun overlay overlay' assigned horig hstep hassigns => by
      obtain ⟨hsame, hmem, hassigned, hvalue⟩ := Overlay.transfer_eq_ok hstep hassigns
      exact ⟨hsame.trans horig, hassigned, fun block hblk => ⟨horig ▸ hmem, hvalue block hblk⟩⟩)
    (fun _ _ h => Option.some_ne_none _ h.2.symm) horig hthird hassigned
  obtain ⟨hsame, hcanon⟩ := Overlay.canonicalize_eq_ok h hassigned
  have hallowed : Allowed newGeneration changes assigned := by
    refine ⟨fun block ⟨range, hrng, hblk⟩ => hfree range hrng block hblk, ?_, ?_⟩
    · rintro block ⟨range, hrng, hblk⟩
      obtain ⟨birth, hvalue, hbirth⟩ := hlive range hrng block hblk
      split at hvalue
      · have heq : newGeneration = birth := congrArg Lifetime.birth (Option.some.inj hvalue)
        omega
      · exact ⟨birth, hvalue, hbirth⟩
    · intro run hrun block hblk
      exact hassigns.shows.inside run (hmoved run hrun block hblk).1 block hblk
  refine ⟨hsame.trans horig, hallowed, ?_⟩
  convert hcanon using 1
  funext block
  obtain ⟨hone, hoth⟩ := hallowed.exclusive hretired block
  show changes.applied block newGeneration assigned = if changes.Transfers block then none
      else if changes.Retires block then
        (if changes.Allocates block then some ⟨newGeneration, none⟩ else assigned block).map
          (Lifetime.retire newGeneration)
      else if changes.Allocates block then some ⟨newGeneration, none⟩ else assigned block
  rw [LifetimeChanges.applied]
  by_cases htransfers : changes.Transfers block
  · obtain ⟨hallocs, hretires⟩ := hoth htransfers
    rw [if_neg hallocs, if_neg hretires, if_pos htransfers, if_pos htransfers]
  rw [if_neg htransfers, if_neg htransfers]
  by_cases hallocs : changes.Allocates block
  · rw [if_pos hallocs, if_neg (hone hallocs), if_pos hallocs]
  · rw [if_neg hallocs, if_neg hallocs]

end Afsplus.Snapshot
