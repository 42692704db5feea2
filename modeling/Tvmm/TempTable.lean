import Tvmm.NestedTable
import Tvmm.Vmcb

/-!
# The temporary page table of the guest

`create_temp_page_table` clears three pages in the memory of the VM and fills
four entries by hand: a PML4 table, a PDP table and a page directory that maps
the first 4 MB of the guest to themselves.  `TempTable` says what the three
frames hold afterwards.
-/

set_option linter.style.nameCheck false

namespace Tvmm

open Exec LongMode

/-- `create_temp_page_table` -/
def createTempPageTable (vmPmemStart cr3 : UInt64) : M Unit := do
  let base := vmPmemStart + cr3
  printf "Temporal page table for virtual machine created.\n"
  forRange 3 fun i => memset (base + PAGE_SIZE * UInt64.ofNat i) 0 PAGE_SIZE
  -- page-map level-4 entry
  let e := base
  storeField nonTermBase e ((cr3 + PAGE_SIZE) >>> PAGE_SHIFT)
  storeField nonTermFlags e (PTTEF_PRESENT ||| PTTEF_RW)
  -- page-directory-pointer
  let e := base + PAGE_SIZE
  storeField nonTermBase e ((cr3 + PAGE_SIZE * 2) >>> PAGE_SHIFT)
  storeField nonTermFlags e (PTTEF_PRESENT ||| PTTEF_RW)
  -- page-directory-pointer
  let e := base + PAGE_SIZE * 2
  storeField termBase e 0
  storeField termFlags e (PTTEF_PRESENT ||| PTTEF_RW ||| PTTEF_PAGE_SIZE)
  -- page-directory-pointer
  let e := base + PAGE_SIZE * 2 + 8
  storeField termBase e 1
  storeField termFlags e (PTTEF_PRESENT ||| PTTEF_RW ||| PTTEF_PAGE_SIZE)

/-- The bytes of the three frames from `n` on. -/
def tempBytes (n : Nat) : Set Nat := Set.Ico (n * 4096) (n * 4096 + 3 * 4096)

/-- Page `k` of `n` pages. -/
theorem page_le {k n : Nat} (h : k < n) : k * 4096 + 4096 ≤ n * 4096 := by
  rw [← Nat.succ_mul]
  exact Nat.mul_le_mul_right 4096 h

theorem mem_tempBytes {n a : Nat} : a ∈ tempBytes n ↔ n ≤ a / 4096 ∧ a / 4096 < n + 3 := by
  rw [tempBytes, Set.mem_Ico]
  omega

/-- The entry of the guest for the writable table at guest-physical frame
`g`. -/
def guestTableEntry (g : Nat) : UInt64 := UInt64.ofNat (g * 4096 + 3)

/-- The frames `n`, `n + 1` and `n + 2` are the PML4 table, the PDP table and
the page directory of the guest, whose `cr3` is `GUEST_CR3`. -/
structure TempTable (n : Nat) (s s' : State) : Prop where
  addressable : n * 4096 + 3 * 4096 ≤ 1073741824
  only : OnlyWrites (tempBytes n) s s'
  pml4 : ∀ i, words s'.mem n i = if i = 0 then guestTableEntry 0x204 else 0
  pdp : ∀ i, words s'.mem (n + 1) i = if i = 0 then guestTableEntry 0x205 else 0
  pd : ∀ i, words s'.mem (n + 2) i =
    if i = 0 then pageEntry 0 false else if i = 1 then pageEntry 1 false else 0

section Create

variable {E : Stop → Prop} {b : UInt64} {n : Nat} {s : State}

/-- The three pages are cleared, so they are mapped. -/
theorem wp_clearPages (hb : b.toNat = n * 4096) (hn : n * 4096 + 3 * 4096 ≤ 2 ^ 46)
    (hE : Accessible E (VIRT b) (3 * 4096)) {Q : Unit → State → Prop}
    (hQ : n * 4096 + 3 * 4096 ≤ 1073741824 →
      Q () { s with mem := s.mem.fill (n * 4096) (3 * 4096) 0 }) :
    wp (forRange 3 fun i => memset (VIRT b + PAGE_SIZE * UInt64.ofNat i) 0 PAGE_SIZE) Q E s := by
  refine wp_imp (wp_forRange (fun k s' => (k ≠ 0 → n * 4096 + k * 4096 ≤ 1073741824) ∧
    s' = { s with mem := s.mem.fill (n * 4096) (k * 4096) 0 })
    ⟨fun h => absurd rfl h, by simp⟩ ?_) ?_
  · rintro k _ hk ⟨-, rfl⟩
    have hofs : PAGE_SIZE * UInt64.ofNat k = UInt64.ofNat (k * 4096) := by
      rw [Nat.mul_comm, UInt64.ofNat_mul]
      rfl
    rw [hofs]
    have hpage := page_le hk
    refine wp_memset (hE.part hpage) fun a ha => ?_
    have ha := ha (by decide)
    have hle := bootTranslate_le ha
    rw [show PAGE_SIZE.toNat = 4096 from rfl] at ha hle ⊢
    rw [bootTranslate_eq_some, UInt64.toNat_add, toNat_VIRT, hb, UInt64.toNat_ofNat'] at ha
    obtain rfl : a = n * 4096 + k * 4096 := by omega
    refine ⟨fun _ => by rwa [Nat.succ_mul, ← Nat.add_assoc], ?_⟩
    show ({ s with mem := _ } : State) = _
    rw [ByteMem.fill_append, Nat.add_mul, Nat.one_mul]
  · rintro _ _ ⟨hle, rfl⟩
    exact hQ (hle (by decide))

theorem words_fill_zero {m : ByteMem} {f : Nat} (hf : n ≤ f ∧ f < n + 3) (i : Fin 512) :
    words (m.fill (n * 4096) (3 * 4096) 0) f i = 0 := by
  refine ByteMem.read64_of_zero fun x hx => ByteMem.fill_of_mem (mem_tempBytes.mpr ?_)
  rw [Set.mem_Ico] at hx
  omega

/-- A page of the guest, as the two stores into a clear entry leave it. -/
theorem set_guestPage (k : UInt64) (hk : k.toNat < 2 ^ 31) :
    termFlags.set (termBase.set 0 k) (PTTEF_PRESENT ||| PTTEF_RW ||| PTTEF_PAGE_SIZE) =
      pageEntry k.toNat false := by
  apply UInt64.toNat_inj.mp
  rw [toNat_pageEntry hk, BitField.toNat_set (by decide), BitField.toNat_set (by decide),
    show (0 : UInt64).toNat = 0 from rfl,
    show (PTTEF_PRESENT ||| PTTEF_RW ||| PTTEF_PAGE_SIZE).toNat = 0x83 from rfl]
  simp only [termFlags, termBase, Bool.false_eq_true, if_false]
  omega

/-- The two stores that fill a clear entry. -/
theorem wp_fillEntry {e x y w : UInt64} {f g : BitField} {i : Fin 512}
    (he : bootTranslate e 8 = some (n * 4096 + 8 * i)) (hz : words s.mem n i = 0)
    (hw : g.set (f.set 0 x) y = w) {c : M Unit} {Q : Unit → State → Prop}
    (hQ : wp c Q E (s.storeWord n i w)) :
    wp (do storeField f e x; storeField g e y; c) Q E s := by
  rw [wp_bind]
  refine wp_storeEntry he ?_
  rw [wp_bind]
  refine wp_storeEntry he ?_
  rwa [words_storeWord_self, storeWord_storeWord, hz, hw]

/-- The boot page tables map every entry of the three pages. -/
theorem bootTranslate_tempEntry (hb : b.toNat = n * 4096)
    (hle : n * 4096 + 3 * 4096 ≤ 1073741824) {j : Nat} (hj : j < 3) (i : Fin 512) :
    bootTranslate (VIRT b + UInt64.ofNat (j * 4096 + 8 * i)) 8 =
      some ((n + j) * 4096 + 8 * i) := by
  have hin : j * 4096 + 8 * i.val + 8 ≤ 3 * 4096 := by
    have hi : 8 * i.val + 8 ≤ 4096 := by omega
    rw [Nat.add_assoc]
    exact (Nat.add_le_add_left hi _).trans (page_le hj)
  have h := bootTranslate_add (k := j * 4096 + 8 * i) (j := 8)
    (bootTranslate_VIRT (p := b) (n := 3 * 4096) (by rw [hb]; exact hle)) hin
  rwa [hb, ← Nat.add_assoc, ← Nat.add_mul] at h

/-- A store to an entry of the three pages writes those pages only. -/
theorem onlyWrites_storeTemp (s : State) {j : Nat} (hj : j < 3) (i : Fin 512) (w : UInt64) :
    OnlyWrites (tempBytes n) s (s.storeWord (n + j) i w) := by
  refine (onlyWrites_storeWord s (n + j) i w).mono fun a ha => ?_
  rw [mem_frameBytes] at ha
  rw [mem_tempBytes]
  omega

/-- `create_temp_page_table` writes the three pages at `cr3` of the guest. -/
theorem wp_createTempPageTable {start : UInt64} (hstart : start + GUEST_CR3 = VIRT b)
    (hb : b.toNat = n * 4096) (hn : n * 4096 + 3 * 4096 ≤ 2 ^ 46)
    (hE : Accessible E (VIRT b) (3 * 4096)) {Q : Unit → State → Prop}
    (hQ : ∀ s', TempTable n s s' → Q () s') :
    wp (createTempPageTable start GUEST_CR3) Q E s := by
  rw [createTempPageTable, hstart, printf_bind, wp_bind]
  refine wp_clearPages hb hn hE fun hle => ?_
  -- The addresses of the four entries.
  have hentry := fun (j : Nat) (i : Fin 512) (hj : j < 3) =>
    bootTranslate_tempEntry hb hle hj i
  have h4 : bootTranslate (VIRT b) 8 = some (n * 4096 + 8 * (0 : Fin 512)) := by
    simpa using hentry 0 0 (by decide)
  have h3 : bootTranslate (VIRT b + PAGE_SIZE) 8 =
      some ((n + 1) * 4096 + 8 * (0 : Fin 512)) := hentry 1 0 (by decide)
  have h2 : bootTranslate (VIRT b + PAGE_SIZE * 2) 8 =
      some ((n + 2) * 4096 + 8 * (0 : Fin 512)) := hentry 2 0 (by decide)
  have h2' : bootTranslate (VIRT b + PAGE_SIZE * 2 + 8) 8 =
      some ((n + 2) * 4096 + 8 * (1 : Fin 512)) := by
    rw [UInt64.add_assoc]
    exact hentry 2 1 (by decide)
  have hzero : ∀ j (i : Fin 512), j < 3 →
      words (s.mem.fill (n * 4096) (3 * 4096) 0) (n + j) i = 0 := fun j i hj =>
    words_fill_zero ⟨by omega, by omega⟩ i
  have h0 := fun i => hzero 0 i (by decide)
  rw [Nat.add_zero] at h0
  let s₀ : State := { s with mem := s.mem.fill (n * 4096) (3 * 4096) 0 }
  have hclear : OnlyWrites (tempBytes n) s s₀ :=
    OnlyWrites.of_mem (ByteMem.eqOn_fill _ _ _ _)
  have hz : ∀ j (i : Fin 512), j < 3 → words s₀.mem (n + j) i = 0 := hzero
  refine wp_fillEntry (s := s₀) h4 (h0 0) (w := guestTableEntry 0x204) (by decide) ?_
  refine wp_fillEntry h3 (w := guestTableEntry 0x205) ?_ (by decide) ?_
  · rw [words_storeWord, if_neg (by omega)]
    exact hz 1 0 (by decide)
  refine wp_fillEntry h2 (w := pageEntry 0 false) ?_ (set_guestPage 0 (by decide)) ?_
  · rw [words_storeWord, if_neg (by omega), words_storeWord, if_neg (by omega)]
    exact hz 2 0 (by decide)
  rw [wp_bind]
  refine wp_storeEntry h2' (wp_storeEntry h2' ?_)
  rw [words_storeWord_self, storeWord_storeWord, words_storeWord,
    if_neg (fun h => absurd h.2 (by decide)), words_storeWord, if_neg (by omega),
    words_storeWord, if_neg (by omega),
    show words s₀.mem (n + 2) 1 = 0 from hz 2 1 (by decide), set_guestPage 1 (by decide)]
  refine hQ _ ⟨hle, ?_, fun i => ?_, fun i => ?_, fun i => ?_⟩
  · have hset := fun (s : State) (j : Nat) (i : Fin 512) (w : UInt64) (hj : j < 3) =>
      onlyWrites_storeTemp (n := n) s hj i w
    exact hclear.trans ((hset _ 0 _ _ (by decide)).trans ((hset _ 1 _ _ (by decide)).trans
      ((hset _ 2 _ _ (by decide)).trans (hset _ 2 _ _ (by decide)))))
  · simp [words_storeWord, show words s₀.mem n i = 0 from h0 i]
  · simp [words_storeWord, hz 1 i]
  · simp only [words_storeWord, true_and, hz 2 i (by decide)]
    split_ifs <;> simp_all

end Create

end Tvmm
