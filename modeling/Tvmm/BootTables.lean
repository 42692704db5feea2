import Tvmm.Lib.AccessedDirty
import Tvmm.Page

/-!
# `boot.S`: the page tables of the VMM

The three tables lie one behind the other in the data of the VMM, and the
assembler fills them.  Entries 0 and 262 of the PML4 lead to the same PDP table,
so the tables are no tree.  `bootTables_translate`: the walk of the processor over
them is the translation that every load and store of the model makes, whatever
accessed and dirty bits are set in the entries.
-/

set_option linter.style.nameCheck false

namespace Tvmm

open LongMode

/-! ## The tables -/

/-- The macro `identmap`.  Its expansion does not end for `count = 0`, which is
not used. -/
def identmap (start : UInt64) (count : Nat) : List UInt64 :=
  if count = 0 then []
  else if count = 1 then [start ||| PTTEF_PRESENT ||| PTTEF_RW ||| PTTEF_PAGE_SIZE]
  else
    identmap start (count / 2) ++
      identmap (start + 0x200000 * UInt64.ofNat (count / 2)) (count / 2)
termination_by count

/-- `vmm_pml4_table`, where `vmmPdpTable` is the address of the next one -/
def vmmPml4Table (vmmPdpTable : UInt64) : List UInt64 :=
  [PHYS vmmPdpTable + PTTEF_PRESENT + PTTEF_RW + PTTEF_US] ++ List.replicate 261 0 ++
    [PHYS vmmPdpTable + PTTEF_PRESENT + PTTEF_RW + PTTEF_US] ++ List.replicate 249 0

/-- `vmm_pdp_table` -/
def vmmPdpTable (vmmPdirTable : UInt64) : List UInt64 :=
  [PHYS vmmPdirTable + PTTEF_PRESENT + PTTEF_RW + PTTEF_US] ++ List.replicate 511 0

/-- `vmm_pdir_table` -/
def vmmPdirTable : List UInt64 := identmap 0 512

theorem Addressable.mono {f g : Nat} (h : Addressable g) (hle : f ≤ g) : Addressable f :=
  Nat.le_trans (Nat.add_le_add_right (Nat.mul_le_mul_right 4096 hle) 4096) h

/-- The tables are in the frames `p`, `p + 1` and `p + 2`, up to the bits that the
processor sets. -/
structure BootTablesAt (p : Nat) (m : ByteMem) : Prop where
  addressable : Addressable (p + 2)
  pml4 : ∀ i : Fin 512, ignoreAD (words m p i) =
    (vmmPml4Table (frameVaddr (p + 1))).getD i 0
  pdp : ∀ i : Fin 512, ignoreAD (words m (p + 1) i) =
    (vmmPdpTable (frameVaddr (p + 2))).getD i 0
  pdir : ∀ i : Fin 512, ignoreAD (words m (p + 2) i) = vmmPdirTable.getD i 0

/-! ## Their entries -/

/-- The macro emits the entries of adjacent pages. -/
theorem identmap_eq (start : UInt64) (k : Nat) : identmap start (2 ^ k) =
    (List.range (2 ^ k)).map fun i =>
      (start + 0x200000 * UInt64.ofNat i) ||| PTTEF_PRESENT ||| PTTEF_RW |||
        PTTEF_PAGE_SIZE := by
  induction k generalizing start with
  | zero =>
    rw [identmap]
    simp
  | succ k ih =>
    have hpos := Nat.two_pow_pos k
    have hhalf : 2 ^ (k + 1) / 2 = 2 ^ k := by
      rw [Nat.pow_succ, Nat.mul_div_cancel _ (by decide)]
    rw [identmap, if_neg (by omega), if_neg (by omega), hhalf, ih, ih,
      show 2 ^ (k + 1) = 2 ^ k + 2 ^ k by omega, List.range_add, List.map_append, List.map_map]
    congr 1
    apply List.map_congr_left
    intro i _
    simp only [Function.comp_apply]
    rw [UInt64.ofNat_add, UInt64.mul_add, UInt64.add_assoc]

/-- An aligned address and the flags. -/
theorem toNat_or_flags {x : UInt64} (h : 2 ^ 21 ∣ x.toNat) :
    (x ||| PTTEF_PRESENT ||| PTTEF_RW ||| PTTEF_PAGE_SIZE).toNat = x.toNat + 0x83 := by
  obtain ⟨n, hn⟩ := h
  have hflags : (PTTEF_PRESENT ||| PTTEF_RW ||| PTTEF_PAGE_SIZE).toNat = 0x83 := rfl
  rw [UInt64.or_assoc, UInt64.or_assoc, ← UInt64.or_assoc PTTEF_PRESENT, UInt64.toNat_or,
    hflags, hn, Nat.two_pow_add_eq_or_of_lt (by decide)]

theorem vmmPdirTable_getD (i : Fin 512) : vmmPdirTable.getD i 0 = pageEntry i false := by
  have hi := i.isLt
  have hpage : (0 + 0x200000 * UInt64.ofNat i : UInt64).toNat = i.val * 2 ^ 21 := by
    rw [UInt64.zero_add, UInt64.toNat_mul, UInt64.toNat_ofNat',
      show (0x200000 : UInt64).toNat = 2097152 from rfl]
    omega
  have htable : vmmPdirTable = _ := identmap_eq 0 9
  rw [htable, List.getD_eq_getElem?_getD, List.getElem?_map, List.getElem?_range (by omega),
    Option.map_some, Option.getD_some]
  have hdvd : 2 ^ 21 ∣ (0 + 0x200000 * UInt64.ofNat i : UInt64).toNat := by omega
  have hentry := toNat_or_flags hdvd
  apply UInt64.toNat_inj.mp
  rw [hentry, hpage, toNat_pageEntry (by omega)]
  simp

/-- The sum that an entry for a table is written as. -/
theorem phys_add_flags {f : Nat} (hf : Addressable f) :
    PHYS (frameVaddr f) + PTTEF_PRESENT + PTTEF_RW + PTTEF_US = tableEntry f := by
  have hlt := hf
  unfold Addressable at hlt
  apply UInt64.toNat_inj.mp
  rw [frameVaddr, PHYS_VIRT, toNat_tableEntry (by omega), UInt64.toNat_add, UInt64.toNat_add,
    UInt64.toNat_add, hf.toNat, show PTTEF_PRESENT.toNat = 1 from rfl,
    show PTTEF_RW.toNat = 2 from rfl, show PTTEF_US.toNat = 4 from rfl]
  omega

theorem vmmPml4Table_getD {f : Nat} (hf : Addressable f) (i : Fin 512) :
    (vmmPml4Table (frameVaddr f)).getD i 0 =
      if i.val = 0 ∨ i.val = 262 then tableEntry f else 0 := by
  have hi := i.isLt
  rw [vmmPml4Table, phys_add_flags hf, List.getD_eq_getElem?_getD]
  simp only [List.getElem?_append, List.length_append, List.length_replicate,
    List.length_singleton, List.getElem?_replicate, List.getElem?_singleton]
  split_ifs <;> first | omega | rfl

theorem vmmPdpTable_getD {f : Nat} (hf : Addressable f) (i : Fin 512) :
    (vmmPdpTable (frameVaddr f)).getD i 0 = if i.val = 0 then tableEntry f else 0 := by
  have hi := i.isLt
  rw [vmmPdpTable, phys_add_flags hf, List.getD_eq_getElem?_getD]
  simp only [List.getElem?_append, List.length_singleton, List.getElem?_replicate,
    List.getElem?_singleton]
  split_ifs <;> first | omega | rfl

/-! ## The tables in the image -/

/-- The three tables, as the assembler lays them out from frame `p` on: each of them
fills a page, so no alignment leaves a gap. -/
def bootData (p : Nat) : List UInt64 :=
  vmmPml4Table (frameVaddr (p + 1)) ++ (vmmPdpTable (frameVaddr (p + 2)) ++ vmmPdirTable)

theorem length_vmmPml4Table (v : UInt64) : (vmmPml4Table v).length = 512 := by
  simp only [vmmPml4Table, List.length_append, List.length_replicate, List.length_singleton]

theorem length_vmmPdpTable (v : UInt64) : (vmmPdpTable v).length = 512 := by
  simp only [vmmPdpTable, List.length_append, List.length_replicate, List.length_singleton]

theorem flags_ignoreAD {e : UInt64} {n : Nat} (h : e.toNat = n) (h5 : n / 2 ^ 5 % 2 = 0)
    (h6 : n / 2 ^ 6 % 2 = 0) : ignoreAD e = e := by
  apply ignoreAD_eq_self
  · rw [flag_eq, h, decide_eq_false_iff_not]
    omega
  · rw [flag_eq, h, decide_eq_false_iff_not]
    omega

theorem ignoreAD_tableEntry {f : Nat} (h : f < 2 ^ 40) :
    ignoreAD (tableEntry f) = tableEntry f :=
  flags_ignoreAD (toNat_tableEntry h) (by omega) (by omega)

theorem ignoreAD_pageEntry {n : Nat} (h : n < 2 ^ 31) (u : Bool) :
    ignoreAD (pageEntry n u) = pageEntry n u := by
  refine flags_ignoreAD (toNat_pageEntry h u) ?_ ?_
  · split_ifs <;> omega
  · split_ifs <;> omega

/-- The tables are there when the boot loader has loaded the VMM. -/
theorem BootTablesAt.of_loaded {p : Nat} {m : ByteMem} (hp : Addressable (p + 2))
    (h : ∀ i < 1536, m.read64 (p * 4096 + 8 * i) = (bootData p).getD i 0) :
    BootTablesAt p m := by
  have hlt := hp
  unfold Addressable at hlt
  have hp1 : Addressable (p + 1) := hp.mono (Nat.le_succ _)
  have hf1 : p + 1 < 2 ^ 40 := by omega
  have hf2 : p + 2 < 2 ^ 40 := by omega
  have hw : ∀ (k : Nat) (i : Fin 512), k < 3 →
      words m (p + k) i = (bootData p).getD (512 * k + i) 0 := by
    intro k i hk
    have hi := i.isLt
    have haddr : (p + k) * 4096 + 8 * i.val = p * 4096 + 8 * (512 * k + i) := by omega
    rw [words, haddr, h _ (by omega)]
  refine ⟨hp, fun i => ?_, fun i => ?_, fun i => ?_⟩
  · have hi := i.isLt
    have h0 := hw 0 i (by decide)
    rw [Nat.add_zero, Nat.mul_zero, Nat.zero_add, bootData, List.getD_append _ _ _ _
      (by rw [length_vmmPml4Table]; omega)] at h0
    rw [h0, vmmPml4Table_getD hp1]
    split_ifs
    · exact ignoreAD_tableEntry hf1
    · rfl
  · have hi := i.isLt
    rw [hw 1 i (by decide), bootData, List.getD_append_right _ _ _ _
      (by rw [length_vmmPml4Table]; omega), length_vmmPml4Table, List.getD_append _ _ _ _
      (by rw [length_vmmPdpTable]; omega), show 512 * 1 + i.val - 512 = i by omega,
      vmmPdpTable_getD hp]
    split_ifs
    · exact ignoreAD_tableEntry hf2
    · rfl
  · have hi := i.isLt
    rw [hw 2 i (by decide), bootData, List.getD_append_right _ _ _ _
      (by rw [length_vmmPml4Table]; omega), length_vmmPml4Table, List.getD_append_right _ _ _ _
      (by rw [length_vmmPdpTable]; omega), length_vmmPdpTable,
      show 512 * 2 + i.val - 512 - 512 = i by omega, vmmPdirTable_getD]
    exact ignoreAD_pageEntry (by omega) false

/-! ## The walk -/

/-- The walk for an access of the VMM. -/
def supervisorWalk (m : ByteMem) (cr3 : Nat) (v : UInt64) : Option Translation :=
  if Canonical v then walk m cr3 v.toNat else none

/-- What a walk over the tables of `boot.S` yields: both entries of the PML4 lead to
the one page directory. -/
theorem BootTablesAt.walk {p : Nat} {m : ByteMem} (h : BootTablesAt p m) (v : Nat) :
    (LongMode.walk m (p * 4096) v).map Translation.ignoreAD =
      if (index v 3 = 0 ∨ index v 3 = 262) ∧ index v 2 = 0 then
        some (translation [tableEntry (p + 1), tableEntry (p + 2)]
          (pageEntry (index v 1) false) 21 v)
      else none := by
  have haddr := h.addressable
  unfold Addressable at haddr
  have hp1 : Addressable (p + 1) := h.addressable.mono (Nat.le_succ _)
  have hf1 : p + 1 < 2 ^ 40 := by omega
  have hf2 : p + 2 < 2 ^ 40 := by omega
  let read : Nat → Option UInt64 := fun a => (memRead m a).map ignoreAD
  have hread : ∀ (f l : Nat), read (f * 4096 + 8 * index v l) =
      some (ignoreAD (words m f (slot v l))) := fun _ _ => rfl
  have hslot : ∀ l, (slot v l).val = index v l := fun _ => rfl
  have h4 : read (p * 4096 / 4096 % 2 ^ 40 * 4096 + 8 * index v 3) =
      some (if index v 3 = 0 ∨ index v 3 = 262 then tableEntry (p + 1) else 0) := by
    rw [show p * 4096 / 4096 % 2 ^ 40 = p by omega, hread, h.pml4,
      vmmPml4Table_getD hp1, hslot]
  have h3 : read (frame (tableEntry (p + 1)) * 4096 + 8 * index v 2) =
      some (if index v 2 = 0 then tableEntry (p + 2) else 0) := by
    rw [frame_tableEntry hf1, hread, h.pdp, vmmPdpTable_getD h.addressable, hslot]
  have h2 : read (frame (tableEntry (p + 2)) * 4096 + 8 * index v 1) =
      some (pageEntry (index v 1) false) := by
    rw [frame_tableEntry hf2, hread, h.pdir, vmmPdirTable_getD, hslot]
  rw [← walkVia_memRead, ← walkVia_ignoreAD]
  by_cases hi3 : index v 3 = 0 ∨ index v 3 = 262
  · rw [if_pos hi3] at h4
    by_cases hi2 : index v 2 = 0
    · rw [if_pos hi2] at h3
      obtain ⟨hp1, -, -, -, -, hr1, -⟩ := flags_tableEntry hf1
      obtain ⟨hp2, -, -, hs2, -⟩ := flags_tableEntry hf2
      have hlt : index v 1 < 2 ^ 31 :=
        Nat.lt_of_lt_of_le (Nat.mod_lt _ (by decide)) (by decide : 512 ≤ 2 ^ 31)
      obtain ⟨hpage, -, -, hsize, -, hres, -⟩ := flags_pageEntry hlt false
      rw [walkVia_pd h4 hp1 hr1 h3 hp2 hs2 h2 fun _ => ⟨hsize, hres⟩, if_pos hpage,
        if_pos ⟨hi3, hi2⟩]
    · rw [if_neg hi2] at h3
      rw [walkVia_eq_none_of_pdp h4 h3, if_neg fun hc => hi2 hc.2]
  · rw [if_neg hi3] at h4
    rw [walkVia_eq_none_of_pml4 h4, if_neg fun hc => hi3 hc.1]

/-- The page of the translation. -/
theorem boot_translation {p v : Nat} (hp : p + 2 < 2 ^ 40) :
    (translation [tableEntry (p + 1), tableEntry (p + 2)] (pageEntry (index v 1) false) 21
      v).IsPage (index v 1) false v := by
  have hlt : index v 1 < 2 ^ 31 :=
    Nat.lt_of_lt_of_le (Nat.mod_lt _ (by decide)) (by decide : 512 ≤ 2 ^ 31)
  obtain ⟨-, ha1, ha2, -, ha63, -, hap⟩ := flags_tableEntry (f := p + 1) (by omega)
  obtain ⟨-, hb1, hb2, -, hb63, -, hbp⟩ := flags_tableEntry hp
  obtain ⟨-, h1, h2, -, h63, -, hbase, hplain⟩ := flags_pageEntry hlt false
  constructor
  · rw [translation, hbase]
  · simp [translation, ha1, hb1, h1]
  · simp [translation, ha2, hb2, h2]
  · simp [translation, ha63, hb63, h63]
  · simp [translation, hap, hbp, hplain]

/-- A byte that the tables of `boot.S` map, with the rights to it. -/
structure SupervisorByte (m : ByteMem) (cr3 : Nat) (v : UInt64) (a : Nat) : Prop where
  walk : ∃ t, supervisorWalk m cr3 v = some t ∧ t.paddr = a ∧ t.writable = true ∧
    t.noExec = false ∧ t.user = false

/-- A walk that does not fault ends where the model says. -/
theorem BootTablesAt.bootTranslate_eq {p : Nat} {m : ByteMem} (h : BootTablesAt p m)
    {v : UInt64} {t : Translation} (ht : supervisorWalk m (p * 4096) v = some t) :
    bootTranslate v 1 = some t.paddr := by
  have hv := v.toNat_lt
  have haddr := h.addressable
  unfold Addressable at haddr
  have hwalk := h.walk v.toNat
  have hi3 : index v.toNat 3 = v.toNat / 2 ^ 39 % 512 := rfl
  have hi2 : index v.toNat 2 = v.toNat / 2 ^ 30 % 512 := rfl
  have hi1 : index v.toNat 1 = v.toNat / 2 ^ 21 % 512 := rfl
  have hpage := boot_translation (p := p) (v := v.toNat) (by omega)
  have hcan : Canonical v := by
    by_contra hcan
    rw [supervisorWalk, if_neg hcan] at ht
    cases ht
  rw [supervisorWalk, if_pos hcan] at ht
  unfold Canonical at hcan
  rw [ht, Option.map_some] at hwalk
  split_ifs at hwalk with hidx
  have hpaddr := congrArg Translation.paddr (Option.some.inj hwalk)
  rw [ignoreAD_paddr, hpage.paddr] at hpaddr
  rw [bootTranslate_eq_some]
  omega

/-- One byte: the walk ends where the model says, and the VMM may read, write and
execute there. -/
theorem BootTablesAt.supervisorByte {p : Nat} {m : ByteMem} (h : BootTablesAt p m)
    {v : UInt64} {a : Nat} :
    SupervisorByte m (p * 4096) v a ↔ bootTranslate v 1 = some a := by
  have hv := v.toNat_lt
  have haddr := h.addressable
  unfold Addressable at haddr
  have hwalk := h.walk v.toNat
  have hi3 : index v.toNat 3 = v.toNat / 2 ^ 39 % 512 := rfl
  have hi2 : index v.toNat 2 = v.toNat / 2 ^ 30 % 512 := rfl
  have hi1 : index v.toNat 1 = v.toNat / 2 ^ 21 % 512 := rfl
  have hpage := boot_translation (p := p) (v := v.toNat) (by omega)
  constructor
  · rintro ⟨t, ht, rfl, -, -, -⟩
    exact h.bootTranslate_eq ht
  · intro hmap
    obtain ⟨hle, hcase⟩ := bootTranslate_eq_some.mp hmap
    have hcan : Canonical v := by
      unfold Canonical
      omega
    rw [if_pos (by omega)] at hwalk
    cases hw : LongMode.walk m (p * 4096) v.toNat with
    | none =>
      rw [hw] at hwalk
      cases hwalk
    | some t =>
      rw [hw, Option.map_some] at hwalk
      have ht := Option.some.inj hwalk
      rw [← ht] at hpage
      refine ⟨t, ?_, ?_, hpage.writable, hpage.noExec, hpage.user⟩
      · rw [supervisorWalk, if_pos hcan, hw]
      · have hpaddr := hpage.paddr
        rw [ignoreAD_paddr] at hpaddr
        omega

/-- A range is mapped exactly when each of its bytes is. -/
theorem BootTablesAt.bootTranslate_iff {p : Nat} {m : ByteMem} (h : BootTablesAt p m) {v : UInt64}
    {n a : Nat} (hn : 0 < n) : bootTranslate v n = some a ↔
      ∀ k < n, SupervisorByte m (p * 4096) (v + UInt64.ofNat k) (a + k) := by
  constructor
  · intro hmap k hk
    rw [h.supervisorByte]
    exact bootTranslate_add hmap (by omega)
  · intro hall
    have hfirst := h.supervisorByte.mp (hall 0 hn)
    have hlast := h.supervisorByte.mp (hall (n - 1) (by omega))
    rw [bootTranslate_eq_some] at hfirst hlast ⊢
    have h0 : (v + UInt64.ofNat 0).toNat = v.toNat := by simp
    rw [h0] at hfirst
    omega

/-- The tables of `boot.S` are the translation of the model: a range is mapped to
physical memory exactly when the walk of each of its bytes ends there, and an access to
any other address faults. -/
theorem bootTables_translate {p : Nat} {m : ByteMem} (h : BootTablesAt p m) :
    (∀ v n a, 0 < n → (bootTranslate v n = some a ↔
      ∀ k < n, SupervisorByte m (p * 4096) (v + UInt64.ofNat k) (a + k))) ∧
    ∀ v, bootTranslate v 1 = none → supervisorWalk m (p * 4096) v = none := by
  refine ⟨fun _ _ _ => h.bootTranslate_iff, fun v hnone => ?_⟩
  cases ht : supervisorWalk m (p * 4096) v with
  | none => rfl
  | some t =>
    rw [h.bootTranslate_eq ht] at hnone
    cases hnone

/-- Memory in which the tables are loaded from frame 0x203 on. -/
def sampleBootMem : ByteMem := fun a =>
  UInt8.ofNat (((bootData 0x203).getD ((a - 0x203000) / 8) 0).toNat / 256 ^ (a % 8))

theorem sample_bootTables : BootTablesAt 0x203 sampleBootMem := by
  refine .of_loaded (by unfold Addressable; omega) fun i hi => ?_
  rw [← ByteMem.read64_write64 sampleBootMem (0x203 * 4096 + 8 * i) ((bootData 0x203).getD i 0)]
  refine ByteMem.read64_congr fun a ha => ?_
  rw [Set.mem_Ico] at ha
  have hidx : (a - 0x203000) / 8 = i := by omega
  have hbyte : a % 8 = a - (0x203 * 4096 + 8 * i) := by omega
  rw [ByteMem.write64, ByteMem.writeLE, if_pos ha, sampleBootMem, hidx, hbyte]

/-- The VMM may use the page at 4 KB, and there is nothing at 1 GB. -/
theorem sample_bootTables_translate :
    (∀ k < 4096, SupervisorByte sampleBootMem (0x203 * 4096) (0x1000 + UInt64.ofNat k)
      (0x1000 + k)) ∧ supervisorWalk sampleBootMem (0x203 * 4096) 0x40000000 = none := by
  obtain ⟨hmap, hfault⟩ := bootTables_translate sample_bootTables
  exact ⟨(hmap 0x1000 4096 0x1000 (by decide)).mp (by decide), hfault _ (by decide)⟩

end Tvmm
