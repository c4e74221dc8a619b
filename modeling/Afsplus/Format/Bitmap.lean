import Afsplus.Format.Region

/-!
# Bitmap pages in the width of the source

A page counts its bits in 32 bits. The counts are followed here as they are computed, with what wraps around,
and compared with the unbounded ones: they agree as long as the bits of all bytes together can be counted,
which every page that encodes or decodes is far from missing.
-/

namespace Afsplus

open Wire Fallible Bits List

namespace BitmapPage

/-- `self.bits.len() as u32 * 8`. -/
def totalBits (page : BitmapPage) : Nat := page.bits.length % 2 ^ 32 * 8 % 2 ^ 32

def wrappingSub (a b : Nat) : Nat := (a + (2 ^ 32 - b % 2 ^ 32)) % 2 ^ 32

namespace Wrapping

def sealTrailingBits (page : BitmapPage) : BitmapPage :=
  { page with bits :=
      (List.range' page.validBlocks (page.totalBits - page.validBlocks)).foldl setBit page.bits }

def allFree (region pageIndex firstBlock validBlocks : UInt32) : BitmapPage :=
  sealTrailingBits ⟨region.toNat, pageIndex.toNat, firstBlock.toNat, validBlocks.toNat,
    List.replicate (divCeil validBlocks.toNat 8) 0⟩

/-- The new page, and whether the bit changed. -/
def setAllocated (page : BitmapPage) (localIndex : Nat) (allocated : Bool) : BitmapPage × Bool :=
  ({ page with bits := writeBit page.bits localIndex allocated }, page.isAllocated localIndex != allocated)

def freeBlocks (page : BitmapPage) : Nat :=
  let ones := (page.bits.map countOnes).sum % 2 ^ 32
  let trailing := wrappingSub page.totalBits page.validBlocks
  wrappingSub page.validBlocks (wrappingSub ones trailing)

def setAll (page : BitmapPage) (updates : List (Nat × Bool)) : BitmapPage :=
  updates.foldl (fun page update => (setAllocated page update.1 update.2).1) page

end Wrapping

def clearBits (page : BitmapPage) : Nat :=
  ((List.range page.validBlocks).filter fun index => !page.isAllocated index).length

/-- What was last written to a bit, of a page that started free. -/
def lastWritten (updates : List (Nat × Bool)) (index : Nat) : Bool :=
  updates.foldl (fun bit update => if update.1 = index then update.2 else bit) false

theorem wrappingSub_eq {a b : Nat} (ha : a < 2 ^ 32) (hb : b ≤ a) : wrappingSub a b = a - b := by
  rw [wrappingSub]
  omega

/-- The page's bits can be counted in 32 bits. -/
def Countable (page : BitmapPage) : Prop := page.bits.length * 8 < 2 ^ 32

variable {page : BitmapPage}

theorem Countable.totalBits (h : page.Countable) : page.totalBits = page.bits.length * 8 := by
  rw [Countable] at h
  rw [BitmapPage.totalBits]
  omega

theorem clearBits_eq (page : BitmapPage) :
    page.clearBits = ∑ i ∈ Finset.range page.validBlocks, (!page.isAllocated i).toNat :=
  length_filter_range _ _

theorem countOnes_le (byte : UInt8) : countOnes byte ≤ 8 :=
  le_trans (length_filter_le _ _) (le_of_eq (length_range ..))

theorem sum_countOnes_le (bytes : Bytes) : (bytes.map countOnes).sum ≤ bytes.length * 8 := by
  induction bytes with
  | nil => exact Nat.zero_le _
  | cons byte rest ih =>
    have := countOnes_le byte
    rw [map_cons, sum_cons, length_cons]
    omega

theorem Sealed.ones (h : page.Sealed) :
    page.bits.length * 8 - page.validBlocks ≤ (page.bits.map countOnes).sum ∧
      (page.bits.map countOnes).sum - (page.bits.length * 8 - page.validBlocks) ≤ page.validBlocks := by
  have hbound := sum_countOnes_le page.bits
  refine ⟨?_, by omega⟩
  have hlen := h.1
  have hsplit : page.bits.length * 8 = page.validBlocks + (page.bits.length * 8 - page.validBlocks) := by
    omega
  rw [sum_countOnes, hsplit, Finset.sum_range_add, sum_trailing h]
  omega

theorem freeBlocks_wrapping (hsealed : page.Sealed) (hcnt : page.Countable) :
    Wrapping.freeBlocks page = page.clearBits := by
  obtain ⟨hlow, hhigh⟩ := hsealed.ones
  have hlen := hsealed.1
  have hones := sum_countOnes_le page.bits
  have htotal := hcnt.totalBits
  rw [Countable] at hcnt
  rw [clearBits_eq, ← freeBlocks_of_sealed hsealed, Wrapping.freeBlocks, htotal,
    wrappingSub_eq hcnt hlen, Nat.mod_eq_of_lt (lt_of_le_of_lt hones hcnt),
    wrappingSub_eq (by omega) hlow, wrappingSub_eq (by omega) hhigh]
  rfl

theorem Countable.sealTrailingBits (h : page.Countable) : Wrapping.sealTrailingBits page = page.sealTrailingBits := by
  rw [Wrapping.sealTrailingBits, h.totalBits]
  rfl

/-- A page as `all_free` and updates of its blocks leave it. -/
structure Built (page : BitmapPage) (validBlocks : Nat) (bit : Nat → Bool) : Prop where
  valid : page.validBlocks = validBlocks
  length : page.bits.length = divCeil validBlocks 8
  sealed : page.Sealed
  reads : ∀ index < validBlocks, page.isAllocated index = bit index

theorem length_mul_eight_lt {validBlocks : Nat} (h : validBlocks ≤ 2 ^ 32 - 8) : divCeil validBlocks 8 * 8 < 2 ^ 32 := by
  rw [divCeil]
  omega

theorem getBit_replicate_zero (count index : Nat) : getBit (List.replicate count 0) index = false := by
  have hzero : (List.replicate count (0 : UInt8)).getD (index / 8) 0 = 0 := by
    rw [getD_eq_getElem?_getD, getElem?_replicate]
    split_ifs <;> rfl
  rw [getBit, hzero]
  exact Nat.zero_testBit _

variable {region pageIndex firstBlock validBlocks : UInt32}

theorem built_allFree (h : validBlocks.toNat ≤ 2 ^ 32 - 8) :
    Built (Wrapping.allFree region pageIndex firstBlock validBlocks) validBlocks.toNat fun _ => false := by
  have hcnt : Countable ⟨region.toNat, pageIndex.toNat, firstBlock.toNat, validBlocks.toNat,
      List.replicate (divCeil validBlocks.toNat 8) 0⟩ := by
    rw [Countable, length_replicate]
    exact length_mul_eight_lt h
  rw [Wrapping.allFree, hcnt.sealTrailingBits]
  refine ⟨rfl, ?_, ?_, ?_⟩
  · rw [length_sealTrailingBits, length_replicate]
  · apply sealed_sealTrailingBits
    rw [length_replicate]
    exact le_divCeil_mul _
  · intro index hindex
    rw [isAllocated_inside hindex]
    exact getBit_replicate_zero _ _

variable {bit : Nat → Bool}

theorem Built.setAllocated {validBlocks : Nat}
    (h : Built page validBlocks bit) {index : Nat} (hindex : index < validBlocks) (allocated : Bool) :
    Built (Wrapping.setAllocated page index allocated).1 validBlocks
      fun other => if index = other then allocated else bit other := by
  have hroom : index < page.bits.length * 8 := by
    rw [h.length]
    exact lt_of_lt_of_le hindex (le_divCeil_mul _)
  have hread : ∀ other, (Wrapping.setAllocated page index allocated).1.isAllocated other =
      if other = index then allocated else page.isAllocated other := getBit_writeBit hroom allocated
  have hlen : (Wrapping.setAllocated page index allocated).1.bits.length = page.bits.length := length_writeBit ..
  refine ⟨h.valid, hlen.trans h.length, ⟨?_, ?_⟩, ?_⟩
  · rw [hlen]
    exact h.sealed.1
  · intro other hlow hhigh
    have hlow : page.validBlocks ≤ other := hlow
    have hne : other ≠ index := by
      rw [h.valid] at hlow
      omega
    rw [hread, if_neg hne]
    rw [hlen] at hhigh
    exact h.sealed.2 other hlow hhigh
  · intro other hoth
    rw [hread]
    simp only [eq_comm (a := other)]
    split_ifs
    · rfl
    · exact h.reads other hoth

theorem Built.setAll {validBlocks : Nat} (h : Built page validBlocks bit) {updates : List (Nat × Bool)}
    (hupdates : ∀ update ∈ updates, update.1 < validBlocks) :
    Built (Wrapping.setAll page updates) validBlocks fun index =>
      updates.foldl (fun bit update => if update.1 = index then update.2 else bit) (bit index) := by
  induction updates generalizing page bit with
  | nil => exact h
  | cons update rest ih =>
    obtain ⟨hfirst, hrest⟩ := forall_mem_cons.mp hupdates
    exact ih (h.setAllocated hfirst update.2) hrest

theorem place_setAll (page : BitmapPage) (updates : List (Nat × Bool)) :
    (Wrapping.setAll page updates).region = page.region ∧
      (Wrapping.setAll page updates).pageIndex = page.pageIndex := by
  induction updates generalizing page with
  | nil => exact ⟨rfl, rfl⟩
  | cons update rest ih => exact ih (Wrapping.setAllocated page update.1 update.2).1

theorem Built.countable {validBlocks : Nat} (h : Built page validBlocks bit)
    (hval : validBlocks ≤ 2 ^ 32 - 8) : page.Countable := by
  rw [Countable, h.length]
  exact length_mul_eight_lt hval

/-! ### Sealing twice -/

theorem or_two_pow_of_testBit {byte : UInt8} {i : Nat} (hi : i < 8) (h : byte.toNat.testBit i = true) :
    byte ||| UInt8.ofNat (2 ^ i) = byte := by
  apply UInt8.toNat_inj.mp
  rw [toNat_or_two_pow byte hi]
  apply Nat.eq_of_testBit_eq
  intro j
  rw [Nat.testBit_or, Nat.testBit_two_pow]
  by_cases hj : i = j
  · rw [← hj, h, Bool.true_or]
  · rw [decide_eq_false hj, Bool.or_false]

theorem setBit_of_getBit {bytes : Bytes} {index : Nat} (h : getBit bytes index = true) :
    setBit bytes index = bytes := by
  apply ext_getElem (length_setBit bytes index)
  intro i hi hi'
  simp only [setBit, getElem_modify]
  split_ifs with heq
  · subst heq
    rw [getBit, getD_eq_getElem _ _ hi'] at h
    exact or_two_pow_of_testBit (Nat.mod_lt _ (by decide)) h
  · rfl

theorem foldl_setBit_of_getBit {indices : List Nat} {bytes : Bytes}
    (h : ∀ index ∈ indices, getBit bytes index = true) : indices.foldl setBit bytes = bytes := by
  induction indices with
  | nil => rfl
  | cons index rest ih =>
    obtain ⟨hfirst, hrest⟩ := forall_mem_cons.mp h
    rw [foldl_cons, setBit_of_getBit hfirst, ih hrest]

theorem Sealed.sealTrailingBits_eq (h : page.Sealed) : page.sealTrailingBits = page := by
  have hset : ∀ index ∈ List.range' page.validBlocks (page.bits.length * 8 - page.validBlocks),
      getBit page.bits index = true := by
    intro index hindex
    obtain ⟨hlow, hhigh⟩ := mem_range'_1.mp hindex
    exact h.2 index hlow (by omega)
  have hbits := foldl_setBit_of_getBit hset
  rw [sealTrailingBits]
  cases page
  exact congrArg (BitmapPage.mk _ _ _ _) hbits

/-- What `decode` has made sure of. -/
structure Accepted (block : Bytes) (page : BitmapPage) (generation : Nat) : Prop where
  inRange : page.region < 256 ^ 4 ∧ page.pageIndex < 256 ^ 4 ∧ generation < 256 ^ 8
  sealed : page.Sealed
  length : page.bits.length = divCeil page.validBlocks 8
  valid : page.validBlocks ≠ 0 ∧ page.validBlocks ≤ bitmapPageBlocks
  encodes : page.encode block.length generation = .ok block

attribute [local irreducible] readLe in
theorem accepted_of_decode {block : Bytes} {generation : Nat}
    (h : decode block = .ok (page, generation)) : Accepted block page generation := by
  have hsealed := decode_eq_ok h
  obtain ⟨header, hadm, h⟩ := BlockHeader.admitted_of_bind h
  have hpay := hadm.length_payload
  have hblk := hadm.sealed
  obtain ⟨hflags, h⟩ := of_refuse h
  obtain ⟨hshort, h⟩ := of_refuse h
  generalize header.payload block = p at hpay hblk hshort h
  obtain ⟨hcnt, h⟩ := of_refuse h
  obtain ⟨hoverflow, h⟩ := of_refuse h
  obtain ⟨hplace, h⟩ := of_refuse h
  obtain ⟨hexact, h⟩ := of_refuse h
  obtain ⟨howner, h⟩ := of_refuse h
  replace h := after_check h
  obtain ⟨hpage, rfl⟩ := pure_pair_eq_ok.mp h
  rw [not_lt, bitmapFixedPayload] at hshort
  have hwritten : page.payload = p := by
    rw [payload, hsealed.sealTrailingBits_eq, hpage]
    simp (disch := first | rfl | omega | simp only [length_readLe]; omega) only [append_assoc,
      leBytes_readLe_append]
  have hplen : header.payloadLen = bitmapFixedPayload + page.bits.length := by
    rw [← hpay, hpage]
    simp only [length_readLe, bitmapFixedPayload]
    omega
  have hbytes : page.bits.length = divCeil page.validBlocks 8 := by
    rw [not_not, hpay, hplen] at hexact
    exact (Nat.add_left_cancel hexact).trans (congrArg (divCeil ·.validBlocks 8) hpage.symm)
  have hhdr : header = page.header header.generation := by
    apply hadm.eq_mk (not_not.mp hflags) _ rfl hplen
    rw [hpage]
    exact (not_not.mp howner).symm
  have hroom := hadm.room
  refine ⟨?_, hsealed, hbytes, ?_, ?_⟩
  · rw [hpage]
    exact ⟨readLe_lt .., readLe_lt .., hadm.inRange.generation⟩
  · rw [not_or, not_lt] at hcnt
    rwa [hpage]
  · rw [encode, hbytes, refuseIf_bind (hpage ▸ hcnt), refuseIf_bind (hpage ▸ hoverflow),
      refuseIf_bind (hpage ▸ hplace), refuseIf_bind (not_not.mpr rfl), refuseIf_bind, hwritten, ← hhdr]
    · exact congrArg Except.ok hblk.symm
    · rw [← hbytes]
      omega

/-- None of the subtractions of `free_blocks` goes below zero, and the number of bits fits its type. -/
def CountsExactly (page : BitmapPage) : Prop :=
  page.totalBits = page.bits.length * 8 ∧ page.validBlocks ≤ page.totalBits ∧
    page.totalBits - page.validBlocks ≤ (page.bits.map countOnes).sum ∧
    (page.bits.map countOnes).sum - (page.totalBits - page.validBlocks) ≤ page.validBlocks

theorem Accepted.countsExactly {block : Bytes} {generation : Nat}
    (h : Accepted block page generation) : page.CountsExactly := by
  have hcnt : page.Countable := by
    have hval := h.valid.2
    rw [bitmapPageBlocks] at hval
    rw [Countable, h.length]
    exact length_mul_eight_lt (by omega)
  rw [CountsExactly, hcnt.totalBits]
  exact ⟨rfl, h.sealed.1, h.sealed.ones⟩

/-- Every page of at most `2 ^ 32 - 8` blocks that `all_free` and updates build reads back what was written, counts
its clear bits and survives the codec; every accepted block is the encoding of its page. -/
theorem codec_and_counting :
    (∀ (region pageIndex firstBlock validBlocks : UInt32) (updates : List (Nat × Bool)),
      validBlocks.toNat ≤ 2 ^ 32 - 8 → (∀ update ∈ updates, update.1 < validBlocks.toNat) →
      let page := Wrapping.setAll (Wrapping.allFree region pageIndex firstBlock validBlocks) updates
      (∀ index < validBlocks.toNat, page.isAllocated index = lastWritten updates index) ∧
        Wrapping.freeBlocks page = page.clearBits ∧
        ∀ (blockSize : Nat) (generation : UInt64) (block : Bytes),
          page.encode blockSize generation.toNat = .ok block →
          decode block = .ok (page, generation.toNat)) ∧
    ∀ (block : Bytes) (page : BitmapPage) (generation : Nat), decode block = .ok (page, generation) →
      page.encode block.length generation = .ok block ∧ page.CountsExactly := by
  constructor
  · intro region pageIndex firstBlock validBlocks updates hvalid hupdates page
    have hbuilt : Built page validBlocks.toNat (lastWritten updates) := (built_allFree hvalid).setAll hupdates
    obtain ⟨hregion, hindex⟩ := place_setAll (Wrapping.allFree region pageIndex firstBlock validBlocks) updates
    refine ⟨hbuilt.reads, freeBlocks_wrapping hbuilt.sealed (hbuilt.countable hvalid), ?_⟩
    intro blockSize generation block hencode
    have hdecode := decode_encode (lt_of_eq_of_lt hregion region.toNat_lt)
      (lt_of_eq_of_lt hindex pageIndex.toNat_lt) generation.toNat_lt hencode
    rwa [hbuilt.sealed.sealTrailingBits_eq] at hdecode
  · intro block page generation hdecode
    have haccepted := accepted_of_decode hdecode
    exact ⟨haccepted.encodes, haccepted.countsExactly⟩

theorem codec_and_counting_twelve :
    let page := Wrapping.setAll (Wrapping.allFree 1 0 0 12) [(3, true), (11, true), (3, false)]
    (∀ index < 12, page.isAllocated index = lastWritten [(3, true), (11, true), (3, false)] index) ∧
      Wrapping.freeBlocks page = 11 ∧
      ∃ block, page.encode 64 9 = .ok block ∧ decode block = .ok (page, 9) ∧ page.CountsExactly := by
  have hpage := codec_and_counting.1 1 0 0 12 [(3, true), (11, true), (3, false)] (by decide) (by decide)
  obtain ⟨block, hencode⟩ : ∃ block, (Wrapping.setAll (Wrapping.allFree 1 0 0 12)
      [(3, true), (11, true), (3, false)]).encode 64 9 = .ok block := by
    rw [encode]
    iterate 5 rw [refuseIf_bind (by decide)]
    exact ⟨_, rfl⟩
  have hdecode := hpage.2.2 64 9 block hencode
  exact ⟨hpage.1, hpage.2.1.trans (by decide), block, hencode, hdecode, (codec_and_counting.2 _ _ _ hdecode).2⟩

/-! ### Pages too large to count -/

theorem not_isAllocated_replicate (region pageIndex firstBlock validBlocks count index : Nat) :
    isAllocated ⟨region, pageIndex, firstBlock, validBlocks, List.replicate count 0⟩ index = false :=
  getBit_replicate_zero count index

/-- Past `2 ^ 32 - 8` blocks the number of bits wraps around to zero: nothing is sealed. -/
theorem allFree_large (h : 2 ^ 32 - 8 < validBlocks.toNat) :
    Wrapping.allFree region pageIndex firstBlock validBlocks =
      ⟨region.toNat, pageIndex.toNat, firstBlock.toNat, validBlocks.toNat, List.replicate (2 ^ 29) 0⟩ := by
  have hlt := validBlocks.toNat_lt
  have hbytes : divCeil validBlocks.toNat 8 = 2 ^ 29 := by
    rw [divCeil]
    omega
  have htotal : totalBits ⟨region.toNat, pageIndex.toNat, firstBlock.toNat, validBlocks.toNat,
      List.replicate (2 ^ 29) 0⟩ = 0 := by
    simp only [totalBits, length_replicate]
    decide
  rw [Wrapping.allFree, hbytes, Wrapping.sealTrailingBits, htotal, Nat.zero_sub]
  rfl

theorem sum_countOnes_zeros (count : Nat) : ((List.replicate count (0 : UInt8)).map countOnes).sum = 0 := by
  have hzero : countOnes 0 = 0 := by decide
  induction count with
  | zero => rfl
  | succ count ih => rw [replicate_succ, map_cons, sum_cons, ih, hzero]

/-- Such a page counts none of its blocks free, though every bit is clear. -/
theorem freeBlocks_allFree_large (h : 2 ^ 32 - 8 < validBlocks.toNat) :
    Wrapping.freeBlocks (Wrapping.allFree region pageIndex firstBlock validBlocks) = 0 ∧
      (Wrapping.allFree region pageIndex firstBlock validBlocks).clearBits = validBlocks.toNat := by
  have hlt := validBlocks.toNat_lt
  rw [allFree_large h]
  constructor
  · rw [Wrapping.freeBlocks, totalBits, sum_countOnes_zeros, length_replicate]
    simp only [wrappingSub]
    omega
  · rw [clearBits, filter_eq_self.mpr, length_range]
    intro index _
    rw [not_isAllocated_replicate]
    rfl

theorem freeBlocks_allFree_ne_clearBits :
    Wrapping.freeBlocks (Wrapping.setAll (Wrapping.allFree 0 0 0 4294967295) []) = 0 ∧
      (Wrapping.setAll (Wrapping.allFree 0 0 0 4294967295) []).clearBits = 4294967295 :=
  freeBlocks_allFree_large (by decide)

end BitmapPage

end Afsplus
