import Tvmm.Lib.X86Code
import Tvmm.StartVmm

/-!
# The sample guest

`sos_boot.S` is the guest that comes with the VMM: it copies a message to video memory,
one character and one attribute at a time, and stops at an invalid instruction.
`sosBoot` is its machine code.  `SosPlatform.wp_run` executes it from memory, on any
platform that maps the first 4 MB as the VMM does for its guests, and
`startVmm_sos_prints` is this for the two page tables of the VM that `start_vmm` made.
-/

set_option linter.style.nameCheck false

namespace Tvmm

open Exec LongMode X86

/-! ## The code -/

/-- `print_err` -/
def sosPrintErr : List UInt8 := [
  0xbf, 0x00, 0x80, 0x0b, 0x00, -- mov $0xB8000, %edi
  0x67, 0x8a, 0x1e, -- 1: mov (%esi), %bl
  0x84, 0xdb, -- test %bl, %bl
  0x74, 0x06, -- je 2f
  0xa4, -- movsb
  0xb0, 0x07, -- mov $7, %al
  0xaa, -- stosb
  0xeb, 0xf3, -- jmp 1b
  0x0f, 0x0b] -- 2: ud2a

/-- `_start`, for a message of `n` characters. -/
def sosStart (n : Nat) : List UInt8 :=
  [0xbe, 0x0a, 0x00, 0x20, 0x00] ++ -- mov $(PHYS(check_msg)), %esi
  0xe9 :: ByteMem.bytesLE 4 (n + 1) -- jmp print_err

/-- `sos_boot.S` as it lies at 2 MB, with `text` as `check_msg`. -/
def sosBoot (text : List UInt8) : List UInt8 :=
  sosStart text.length ++ (text ++ [0]) ++ sosPrintErr

/-- What it leaves in video memory: each character with the attribute 7. -/
def sosScreen (text : List UInt8) : List UInt8 := text.flatMap fun c => [c, 7]

theorem sosScreen_cons (ch : UInt8) (text : List UInt8) :
    sosScreen (ch :: text) = ch :: 7 :: sosScreen text := rfl

theorem length_sosStart (n : Nat) : (sosStart n).length = 10 := by
  simp [sosStart]

/-- The address of byte `k` of the code. -/
def sosAddr (k : Nat) : UInt64 := 0x200000 + UInt64.ofNat k

theorem sosAddr_add (k j : Nat) : sosAddr k + UInt64.ofNat j = sosAddr (k + j) := by
  rw [sosAddr, sosAddr, UInt64.ofNat_add, UInt64.add_assoc]

theorem toNat_sosAddr {k : Nat} (hk : k < 2 ^ 21) : (sosAddr k).toNat = 0x200000 + k := by
  rw [sosAddr, UInt64.toNat_add, UInt64.toNat_ofNat',
    show (0x200000 : UInt64).toNat = 0x200000 from rfl]
  omega

/-! ## A run -/

/-- The platform sends the first 4 MB where they belong, while memory from 2 MB on is as
in `m₀`; the code lies there. -/
structure SosPlatform {ε : Type} (pf : ByteMem → Platform ε) (start : Nat) (text : List UInt8)
    (m₀ : ByteMem) : Prop where
  translate : ∀ m, Set.EqOn m m₀ (Set.Ici (2 ^ 21)) → ∀ v, v.toNat < 2 ^ 22 →
    (pf m).translate v 1 = bootTarget start v.toNat
  code : m₀.Holds (start + 0x200000) (sosBoot text)
  nul : 0 ∉ text
  length : (sosBoot text).length ≤ 0x3000

namespace SosPlatform

variable {ε : Type} {pf : ByteMem → Platform ε} {start : Nat} {text : List UInt8}
  {m₀ m : ByteMem} {other hang : ε} {Q : Leave → Cpu → Prop} {E : ε → Prop} {c : Cpu}

theorem length_le (h : SosPlatform pf start text m₀) : text.length + 31 ≤ 0x3000 := by
  have hlen := h.length
  rw [sosBoot, List.length_append, List.length_append, length_sosStart] at hlen
  simp only [List.length_append, sosPrintErr, List.length_cons, List.length_nil] at hlen
  omega

theorem translate_low (h : SosPlatform pf start text m₀)
    (hm : Set.EqOn m m₀ (Set.Ici (2 ^ 21))) {v : UInt64} (hv : v.toNat < 2 ^ 21) :
    (pf m).translate v 1 = some v.toNat := by
  rw [h.translate m hm v (by omega), bootTarget, if_pos (by omega), if_pos hv]

theorem translate_high (h : SosPlatform pf start text m₀)
    (hm : Set.EqOn m m₀ (Set.Ici (2 ^ 21))) {k : Nat} (hk : k < 2 ^ 21) :
    (pf m).translate (sosAddr k) 1 = some (start + 0x200000 + k) := by
  have hv := toNat_sosAddr hk
  rw [h.translate m hm _ (by omega), bootTarget, hv, if_pos (by omega), if_neg (by omega),
    Nat.add_assoc]

/-- A piece of the code. -/
theorem codeAt (h : SosPlatform pf start text m₀) (hm : Set.EqOn m m₀ (Set.Ici (2 ^ 21)))
    {bs : List UInt8} {k : Nat} (hbs : m₀.Holds (start + 0x200000 + k) bs)
    (hk : k + bs.length ≤ 2 ^ 21) : CodeAt (pf m) m (sosAddr k) bs := by
  induction bs generalizing k with
  | nil => trivial
  | cons b bs ih =>
    rw [List.length_cons] at hk
    obtain ⟨hb, hrest⟩ := hbs.cons
    constructor
    · refine ⟨_, h.translate_high hm (by omega), ?_⟩
      rw [← hb]
      exact hm (Set.mem_Ici.mpr (by omega))
    · rw [show sosAddr k + 1 = sosAddr (k + 1) from sosAddr_add k 1]
      exact ih hrest (by omega)

/-- One instruction of the code. -/
theorem wp_instr (h : SosPlatform pf start text m₀) (hm : Set.EqOn c.mem m₀ (Set.Ici (2 ^ 21)))
    {bs : List UInt8} {i : MachineInstr} (hi : Encodes bs i) {k fuel : Nat}
    (hbs : m₀.Holds (start + 0x200000 + k) bs) (hk : k + bs.length ≤ 2 ^ 21)
    (hQ : wp (i.exec (pf c.mem) (sosAddr (k + bs.length))) (fun r c' =>
      match r with
      | .inl v' => wp (runAt pf other hang fuel v') Q E c'
      | .inr out => Q out c') E c) :
    wp (runAt pf other hang (fuel + 1) (sosAddr k)) Q E c := by
  apply wp_runAt (h.codeAt hm hbs hk) hi
  rwa [sosAddr_add]

/-- The code of `print_err`, and its address. -/
theorem print_code (h : SosPlatform pf start text m₀) (k n : Nat) :
    m₀.Holds (start + 0x200000 + (text.length + 11 + k)) ((sosPrintErr.drop k).take n) := by
  have hcode := h.code.right
  rw [List.length_append, List.length_append, length_sosStart, List.length_singleton] at hcode
  have hslice := hcode.slice k n
  rwa [show start + 0x200000 + (10 + (text.length + 1)) + k =
    start + 0x200000 + (text.length + 11 + k) by omega] at hslice

/-- Character `k` of the message. -/
theorem message (h : SosPlatform pf start text m₀) {k : Nat} {ch : UInt8}
    (hch : (text ++ [0])[k]? = some ch) : m₀ (start + 0x200000 + (10 + k)) = ch := by
  have hcode := h.code.left.right
  rw [length_sosStart] at hcode
  rw [← Nat.add_assoc]
  exact hcode k ch hch

/-- One instruction of `print_err`. -/
theorem wp_print (h : SosPlatform pf start text m₀) (hm : Set.EqOn c.mem m₀ (Set.Ici (2 ^ 21)))
    (k n : Nat) {i : MachineInstr} {fuel : Nat} (hi : Encodes ((sosPrintErr.drop k).take n) i)
    (hn : ((sosPrintErr.drop k).take n).length = n) (hk : k + n ≤ 20)
    (hQ : wp (i.exec (pf c.mem) (sosAddr (text.length + 11 + k + n))) (fun r c' =>
      match r with
      | .inl v' => wp (runAt pf other hang fuel v') Q E c'
      | .inr out => Q out c') E c) :
    wp (runAt pf other hang (fuel + 1) (sosAddr (text.length + 11 + k))) Q E c := by
  have hlen := h.length_le
  apply h.wp_instr hm hi (h.print_code k n)
  · omega
  · rwa [hn]

end SosPlatform

/-! ## The loop -/

namespace SosPlatform

variable {ε : Type} {pf : ByteMem → Platform ε} {start : Nat} {text : List UInt8}
  {m₀ m : ByteMem} {other hang : ε} {Q : Leave → Cpu → Prop} {E : ε → Prop} {c : Cpu}
  {fuel j : Nat} {ch : UInt8}

/-- The character is looked at; the loop ends at a zero. -/
theorem wp_test (h : SosPlatform pf start text m₀) (hm : Set.EqOn c.mem m₀ (Set.Ici (2 ^ 21)))
    (hch : (text ++ [0])[j]? = some ch) (hsi : c.reg .rsi = sosAddr (10 + j))
    (hQ : ∀ c', c'.mem = c.mem → c'.reg .rsi = c.reg .rsi → c'.reg .rdi = c.reg .rdi →
      wp (runAt pf other hang fuel (sosAddr (text.length + if ch = 0 then 29 else 23))) Q E c') :
    wp (runAt pf other hang (fuel + 3) (sosAddr (text.length + 16))) Q E c := by
  have hlen := h.length_le
  have hj : j < text.length + 1 := by
    simpa using (List.getElem?_eq_some_iff.mp hch).1
  have haddr : sosAddr (10 + j) &&& 0xffffffff = sosAddr (10 + j) := by
    have hnat := toNat_sosAddr (show 10 + j < 2 ^ 21 by omega)
    apply UInt64.toNat_inj.mp
    rw [UInt64.toNat_and, show (0xffffffff : UInt64).toNat = 2 ^ 32 - 1 from rfl,
      Nat.and_two_pow_sub_one_eq_mod]
    omega
  have hload : c.mem (start + 0x200000 + (10 + j)) = ch := by
    rw [hm (Set.mem_Ici.mpr (by omega)), h.message hch]
  apply h.wp_print hm 5 3 (i := .op (.loadByte .rbx .rsi)) ⟨by decide, fun _ => rfl⟩ rfl (by decide)
  have hbase : (pf c.mem).translate (c.reg .rsi &&& 0xffffffff) 1 =
      some (start + 0x200000 + (10 + j)) := by
    rw [hsi, haddr]
    exact h.translate_high hm (by omega)
  rw [MachineInstr.exec, wp_bind]
  apply wp_loadByte hbase
  rw [wp_pure, hload]
  apply h.wp_print (by exact hm) 8 2 (i := .op (.testByte .rbx)) ⟨by decide, fun _ => rfl⟩ rfl
    (by decide)
  rw [MachineInstr.exec, wp_bind, Op.exec, wp_modify, wp_pure, Cpu.toUInt8_setLow]
  apply h.wp_print (by exact hm) 10 2 (i := .je 6) ⟨by decide, fun _ => rfl⟩ rfl (by decide)
  rw [MachineInstr.exec, wp_bind, wp_get, wp_pure]
  have hjump : sosAddr (text.length + 11 + 10 + 2) + 6 = sosAddr (text.length + 29) :=
    sosAddr_add _ 6
  have hnext := hQ { (c.setLow .rbx ch) with zf := ch == 0 } rfl
    (c.setLow_reg_of_ne (show Reg.rsi ≠ .rbx by decide) ch)
    (c.setLow_reg_of_ne (show Reg.rdi ≠ .rbx by decide) ch)
  dsimp only
  rw [hjump]
  by_cases hz : ch = 0
  · rwa [if_pos (beq_iff_eq.mpr hz), ← if_pos (c := ch = 0) (t := 29) hz]
  · rw [if_neg hz] at hnext
    rwa [if_neg (by simpa using hz)]

/-- The memory from 2 MB on is not video memory. -/
theorem eqOn_update {d : Nat} (hm : Set.EqOn m m₀ (Set.Ici (2 ^ 21))) (hd : d < 2 ^ 21)
    (b : UInt8) : Set.EqOn (Function.update m d b) m₀ (Set.Ici (2 ^ 21)) := by
  intro x hx
  rw [Set.mem_Ici] at hx
  rw [Function.update_of_ne (by omega)]
  exact hm (Set.mem_Ici.mpr hx)

/-- A character and its attribute are written. -/
theorem wp_put (h : SosPlatform pf start text m₀) (hm : Set.EqOn c.mem m₀ (Set.Ici (2 ^ 21)))
    (hch : (text ++ [0])[j]? = some ch) (hsi : c.reg .rsi = sosAddr (10 + j)) {d : Nat}
    (hdi : (c.reg .rdi).toNat = d) (hd : d + 1 < 2 ^ 21)
    (hQ : ∀ c', c'.mem = Function.update (Function.update c.mem d ch) (d + 1) 7 →
      c'.reg .rsi = sosAddr (10 + (j + 1)) → (c'.reg .rdi).toNat = d + 2 →
      wp (runAt pf other hang fuel (sosAddr (text.length + 16))) Q E c') :
    wp (runAt pf other hang (fuel + 4) (sosAddr (text.length + 23))) Q E c := by
  have hlen := h.length_le
  have hj : j < text.length + 1 := by
    simpa using (List.getElem?_eq_some_iff.mp hch).1
  have hload : c.mem (start + 0x200000 + (10 + j)) = ch := by
    rw [hm (Set.mem_Ici.mpr (by omega)), h.message hch]
  -- The character.
  apply h.wp_print hm 12 1 (i := .op .movsb) ⟨by decide, fun _ => rfl⟩ rfl (by decide)
  rw [MachineInstr.exec, wp_bind]
  apply wp_movsb (a := start + 0x200000 + (10 + j)) (b := d)
  · rw [hsi]
    exact h.translate_high hm (by omega)
  · rw [h.translate_low hm (by omega), hdi]
  intro c₁ h₁
  rw [wp_pure]
  have hm₁ : Set.EqOn c₁.mem m₀ (Set.Ici (2 ^ 21)) := by
    rw [h₁.mem]
    exact eqOn_update hm (by omega) _
  apply h.wp_print hm₁ 13 2 (i := .op (.movByte .rax 7)) ⟨by decide, fun _ => rfl⟩ rfl (by decide)
  rw [MachineInstr.exec, wp_bind, Op.exec, wp_modify, wp_pure]
  -- The attribute.
  have hdi₁ : ((c₁.setLow .rax 7).reg .rdi).toNat = d + 1 := by
    rw [Cpu.setLow_reg_of_ne _ (by decide), h₁.rdi, UInt64.toNat_add, hdi,
      show (1 : UInt64).toNat = 1 from rfl]
    omega
  apply h.wp_print (by exact hm₁) 15 1 (i := .op .stosb) ⟨by decide, fun _ => rfl⟩ rfl (by decide)
  rw [MachineInstr.exec, wp_bind]
  apply wp_stosb (b := d + 1)
  · rw [Cpu.setLow_mem, h.translate_low hm₁ (by omega), hdi₁]
  intro c₂ h₂
  rw [wp_pure]
  have hm₂ : Set.EqOn c₂.mem m₀ (Set.Ici (2 ^ 21)) := by
    rw [h₂.mem]
    exact eqOn_update hm₁ hd _
  apply h.wp_print hm₂ 16 2 (i := .jmp (signExtend 8 0xf3)) ⟨by decide, fun _ => rfl⟩ rfl
    (by decide)
  rw [MachineInstr.exec, wp_pure]
  have hjump : sosAddr (text.length + 11 + 16 + 2) + signExtend 8 0xf3 =
      sosAddr (text.length + 16) := by
    rw [show text.length + 11 + 16 + 2 = text.length + 16 + 13 by omega, ← sosAddr_add,
      UInt64.add_assoc, show UInt64.ofNat 13 + signExtend 8 0xf3 = 0 by decide, UInt64.add_zero]
  dsimp only
  rw [hjump]
  apply hQ
  · rw [h₂.mem, Cpu.toUInt8_setLow, Cpu.setLow_mem, h₁.mem, hload]
  · rw [h₂.rsi, Cpu.setLow_reg_of_ne _ (by decide), h₁.rsi, hsi]
    exact sosAddr_add (10 + j) 1
  · rw [h₂.rdi, UInt64.toNat_add, hdi₁, show (1 : UInt64).toNat = 1 from rfl]
    omega

/-- The loop copies what is left of the message.  The induction is on these characters;
`done` is in video memory already. -/
theorem wp_loop (h : SosPlatform pf start text m₀) {rest : List UInt8} :
    ∀ (done : List UInt8) {c : Cpu}, text = done ++ rest →
    Set.EqOn c.mem m₀ (Set.Ici (2 ^ 21)) → c.reg .rsi = sosAddr (10 + done.length) →
    (c.reg .rdi).toNat = 0xB8000 + 2 * done.length →
    (∀ c', c'.mem = c.mem.lay (0xB8000 + 2 * done.length) (sosScreen rest) →
      Q .invalidOpcode c') →
    wp (runAt pf other hang (fuel + (7 * rest.length + 4)) (sosAddr (text.length + 16))) Q E c := by
  have hlen := h.length_le
  induction rest with
  | nil =>
    intro done c htext hm hsi _ hQ
    have hend : (text ++ [0])[done.length]? = some 0 := by
      rw [htext, List.append_nil, List.getElem?_concat_length]
    show wp (runAt pf other hang (fuel + 1 + 3) _) Q E c
    apply h.wp_test hm hend hsi
    intro c₁ hmem _ _
    rw [if_pos rfl]
    apply h.wp_print (by rwa [hmem]) 18 2 (i := .ud2) ⟨by decide, fun _ => rfl⟩ rfl (by decide)
    rw [MachineInstr.exec, wp_pure]
    apply hQ
    rw [hmem]
    funext x
    rw [ByteMem.lay_of_notMem]
    simp [sosScreen]
  | cons ch rest ih =>
    intro done c htext hm hsi hdi hQ
    have hch : (text ++ [0])[done.length]? = some ch := by
      rw [htext, List.append_assoc, List.getElem?_append_right (Nat.le_refl _), Nat.sub_self]
      rfl
    have hne : ch ≠ 0 := by
      rintro rfl
      exact h.nul (htext ▸ List.mem_append_right done List.mem_cons_self)
    have htotal : text.length = done.length + (rest.length + 1) := by
      rw [htext, List.length_append, List.length_cons]
    rw [List.length_cons, show fuel + (7 * (rest.length + 1) + 4) =
      fuel + (7 * rest.length + 4) + 4 + 3 by omega]
    apply h.wp_test hm hch hsi
    intro c₁ hmem₁ hsi₁ hdi₁
    rw [if_neg hne]
    apply h.wp_put (by rwa [hmem₁]) hch (hsi₁.trans hsi) (hdi₁ ▸ hdi) (by omega)
    intro c₂ hmem₂ hsi₂ hdi₂
    have hm₂ : Set.EqOn c₂.mem m₀ (Set.Ici (2 ^ 21)) := by
      rw [hmem₂, hmem₁]
      exact eqOn_update (eqOn_update hm (by omega) ch) (by omega) 7
    apply ih (done ++ [ch])
    · rw [htext, List.append_assoc]
      rfl
    · exact hm₂
    · rw [hsi₂, List.length_append, List.length_singleton]
    · rw [hdi₂, List.length_append, List.length_singleton]
      omega
    · intro c' hc'
      apply hQ
      rw [hc', hmem₂, hmem₁, List.length_append, List.length_singleton, sosScreen_cons,
        ByteMem.lay_cons, ByteMem.lay_cons]
      rfl

/-- The near jump over the message. -/
theorem encodes_jmp {n : Nat} (hn : n < 2 ^ 31) :
    Encodes (0xe9 :: ByteMem.bytesLE 4 n) (.jmp (UInt64.ofNat n)) := by
  have himm : imm32 (UInt8.ofNat n) (UInt8.ofNat (n / 256)) (UInt8.ofNat (n / 256 / 256))
      (UInt8.ofNat (n / 256 / 256 / 256)) = n := by
    simp only [imm32, UInt8.toNat_ofNat']
    omega
  have hdisp : signExtend 32 n = UInt64.ofNat n := by
    rw [signExtend, if_pos hn]
  refine ⟨by simp, fun rest => ?_⟩
  show some (MachineInstr.jmp (signExtend 32 (imm32 _ _ _ _)), 5) = _
  rw [himm, hdisp, List.length_cons, ByteMem.length_bytesLE]

/-- The guest writes its message to video memory and stops at `ud2a`.  Nothing else is
written. -/
theorem wp_run (h : SosPlatform pf start text m₀) (hm : c.mem = m₀)
    (hQ : ∀ c', c'.mem = c.mem.lay 0xB8000 (sosScreen text) → Q .invalidOpcode c') :
    wp (runAt pf other hang (fuel + (7 * text.length + 7)) 0x200000) Q E c := by
  have hlen := h.length_le
  have heq : Set.EqOn c.mem m₀ (Set.Ici (2 ^ 21)) := by
    rw [hm]
    exact Set.eqOn_refl _ _
  have hmov : m₀.Holds (start + 0x200000 + 0) [0xbe, 0x0a, 0x00, 0x20, 0x00] :=
    h.code.left.left.left
  have hjmp : m₀.Holds (start + 0x200000 + 5) (0xe9 :: ByteMem.bytesLE 4 (text.length + 1)) :=
    h.code.left.left.right
  show wp (runAt pf other hang (fuel + (7 * text.length + 4) + 1 + 1 + 1) (sosAddr 0)) Q E c
  apply h.wp_instr heq (i := .op (.movImm .rsi 0x20000a)) ⟨by decide, fun _ => rfl⟩ hmov (by decide)
  rw [MachineInstr.exec, wp_bind, Op.exec, wp_modify, wp_pure]
  apply h.wp_instr (by exact heq) (encodes_jmp (n := text.length + 1) (by omega)) hjmp
  · simp
  rw [MachineInstr.exec, wp_pure, List.length_cons, ByteMem.length_bytesLE, sosAddr_add]
  dsimp only
  rw [show 5 + (4 + 1) + (text.length + 1) = text.length + 11 + 0 by omega]
  apply h.wp_print (by exact heq) 0 5 (i := .op (.movImm .rdi 0xB8000))
    ⟨by decide, fun _ => rfl⟩ rfl (by decide)
  rw [MachineInstr.exec, wp_bind, Op.exec, wp_modify, wp_pure]
  apply h.wp_loop [] rfl (by exact heq)
  · rw [Cpu.set_reg_of_ne _ (by decide), Cpu.set_reg_self]
    rfl
  · rw [Cpu.set_reg_self]
    rfl
  · intro c' hc'
    exact hQ c' hc'

end SosPlatform

/-! ## On the page tables of a new VM -/

/-- The module at `a` is the sample guest with the message `text`.  What lies from
`0x203000` on is overwritten by the temporary page table. -/
structure SosModule (text : List UInt8) (m : ByteMem) (a : Nat) : Prop where
  entry : imageEntry m a = 0x200000
  code : ∃ i, i < imagePhnum m a ∧ ∃ p, p = segment m a i ∧ p.Loadable ∧ p.paddr = 0x200000 ∧
    (sosBoot text).length ≤ p.filesz.toNat ∧ m.Holds (a + p.offset.toNat) (sosBoot text)
  nul : 0 ∉ text
  length : (sosBoot text).length ≤ 0x3000

section Start

variable {L : AllocLayout} {h n a : Nat} {r : UInt64} {S : Set Nat} {hsa : UInt64} {vm : Vm}
  {s s' : State} {text : List UInt8} {m : ByteMem}

theorem VmmStarted.eqOn_pmem (hv : VmmStarted L h n r S hsa vm s s') (hm : FromHeap h m s'.mem) :
    Set.EqOn m s'.mem (vmPmemBytes r DEFAULT_VM_PMEM_SIZE) := by
  intro a ha
  rw [mem_vmPmemBytes] at ha
  refine hm ⟨hv.high_bytes (Or.inr (Or.inr (Or.inr ha))), fun hin => ?_⟩
  rw [mem_frameBytes] at hin
  exact hv.hostSave.2.2 (hin ▸ ha)

/-- The first 4 MB go where they belong, in every such memory. -/
theorem VmmStarted.guestTranslate (hv : VmmStarted L h n r S hsa vm s s')
    (hg : GuestStarted s a n r vm s') (hm : FromHeap h m s'.mem) {v : UInt64}
    (hlt : v.toNat < 2 ^ 22) :
    X86.guestTranslate m vm.hCr3.toNat GUEST_CR3.toNat v 1 =
      bootTarget (r.toNat * 4096) v.toNat := by
  have htemp : Set.EqOn m s'.mem (tempBytes (tempFrame r)) :=
    (hv.eqOn_pmem hm).mono (tempBytes_subset_iff.mpr (by decide))
  have hwalk := hg.walk m htemp (hv.enclosed.guestAccess_eq (hv.sameTables hm)) v.toNat (by omega)
  have hbyte : guestByte m vm.hCr3.toNat GUEST_CR3.toNat v =
      bootTarget (r.toNat * 4096) v.toNat := by
    have hcanonical : Canonical v := Or.inl (by omega)
    rw [guestByte, if_pos hcanonical, hwalk]
  rw [X86.guestTranslate, hbyte, bootTarget, if_pos hlt, Option.bind_some, if_pos]
  intro k hk
  obtain rfl := Nat.lt_one_iff.mp hk
  rw [show UInt64.ofNat 0 = 0 from rfl, UInt64.add_zero, hbyte, bootTarget, if_pos hlt]
  rfl

/-- The sample guest runs on the two page tables of its VM. -/
theorem VmmStarted.sosPlatform (hv : VmmStarted L h n r S hsa vm s s')
    (hg : GuestStarted s a n r vm s') {imgSize size : Nat}
    (hwf : WellFormedImage s.mem a imgSize size) (hsos : SosModule text s.mem a)
    (hm : FromHeap h m s'.mem) {ε : Type} (pageFault : UInt64 → ε) (exit : ε) :
    SosPlatform (guestPlatform pageFault exit vm.hCr3.toNat GUEST_CR3.toNat) (r.toNat * 4096)
      text m := by
  have hlen := hsos.length
  obtain ⟨i, hi, p, hp, hl, hpaddr, hfile, hcode⟩ := hsos.code
  constructor
  · intro m' hm' v hlt
    refine hv.guestTranslate hg (fun x hx => ?_) hlt
    rw [hm' (Set.mem_Ici.mpr (le_trans (by decide) hx.1)), hm hx]
  · intro k b hk
    have hklt : k < (sosBoot text).length := (List.getElem?_eq_some_iff.mp hk).1
    have haddr : p.paddr.toNat = 0x200000 := by
      rw [hpaddr]
      rfl
    have hsize := UInt32.le_iff_toNat_le.mp (hwf.filesz i hi (hp ▸ hl.1))
    rw [← hp] at hsize
    have hbelow : ¬InTempTable (p.paddr.toNat + k) := by
      unfold InTempTable
      omega
    have hin := hg.image i hi p hp hl k (by omega) hbelow
    rw [if_pos (by omega), haddr, hcode k b hk] at hin
    rw [Nat.add_assoc, hv.eqOn_pmem hm, hin]
    rw [vmPmemBytes_eq, Set.mem_Ico, show (nrVmFrames DEFAULT_VM_PMEM_SIZE).toNat * 4096 =
      4194304 from rfl]
    omega
  · exact hsos.nul
  · exact hsos.length

/-- After every run of `start_vmm` with the sample guest as the module, the guest runs
on its two page tables from the entry in the VMCB, whatever is in its registers and below
the end of the heap: it writes its message to video memory and stops at `ud2a`.  It is
one of the runs that the confinement of the guest is about. -/
theorem startVmm_sos_prints {endSym mbi : UInt64} {cpuid : Cpuid} {pml₀ : PmemLayout}
    (hmap : MapEndsBelow2GB mbi s) (hend : (PHYS endSym).toNat ≤ 1073741824)
    (hmod : ModuleWellFormed mbi s)
    (hsos : ∀ start e, guestModule mbi s = .ok ((start, e), s) →
      SosModule text s.mem start.toNat)
    (hrun : startVmmMsr endSym cpuid mbi pml₀ s = .ok ((hsa, vm), s')) {c : Cpu}
    (hmem : FromHeap (hsa.toNat / 4096) c.mem s'.mem) {fuel : Nat}
    (hfuel : 7 * text.length + 7 ≤ fuel) {ε : Type} (pageFault : UInt64 → ε)
    (exit other hang : ε) :
    ∃ n c', vm.vmcb = frameVaddr n ∧
      runAt (guestPlatform pageFault exit (Vmcb.hCr3.value n s') (Vmcb.cr3.value n s')) other hang
        fuel (UInt64.ofNat (Vmcb.rip.value n s')) c = .ok (.invalidOpcode, c') ∧
      c'.mem = c.mem.lay 0xB8000 (sosScreen text) ∧
      GuestRun (Vmcb.hCr3.value n s') c.mem c'.mem := by
  obtain ⟨L, h, n, r, S, hv, -, start, e, hmodule, hg⟩ := vmmStarted_of_run hmap hend hmod hrun
  have hsave : hsa.toNat / 4096 = h := by
    rw [hv.hsa, Nat.mul_div_cancel h (by decide)]
  rw [hsave] at hmem
  have hmodule' := hsos start e hmodule
  have hp := hv.sosPlatform hg (hmod start e hmodule) hmodule' hmem pageFault exit
  have henc := hv.enclosed.congr (hv.sameTables hmem)
  have hrip : UInt64.ofNat (Vmcb.rip.value n s') = 0x200000 := by
    rw [hg.rip, hmodule'.entry]
    rfl
  obtain ⟨extra, rfl⟩ := Nat.exists_eq_add_of_le' hfuel
  have hwp : wp (runAt (guestPlatform pageFault exit vm.hCr3.toNat GUEST_CR3.toNat) other hang
      (extra + (7 * text.length + 7)) 0x200000)
      (fun out c' => out = .invalidOpcode ∧ c'.mem = c.mem.lay 0xB8000 (sosScreen text))
      (fun _ => False) c :=
    hp.wp_run rfl fun c' hc' => ⟨rfl, hc'⟩
  obtain ⟨_, c', hok, rfl, hprinted⟩ := exists_ok_of_wp hwp
  refine ⟨n, c', hv.vmcb, ?_, hprinted, ?_⟩
  · rw [hv.hCr3, hg.cr3, hrip]
    exact hok
  · rw [hv.hCr3]
    exact wp_ok (wp_runAt_guestRun pageFault exit henc _ _ .refl) hok

end Start

/-! ## A sample module -/

/-- The program header of the sample guest. -/
def sosPhdr : ElfPhdr where
  type := PT_LOAD
  offset := 0x80
  paddr := 0x200000
  filesz := 0x3000
  memsz := 0x4000
  flags := PF_X

/-- The sample guest, with a short message, as the module at 8 MB. -/
def sosModuleBoot : State :=
  { elfBoot with
    mem := ByteMem.layAll ((sampleElf sosPhdr).lay 0x800080 (sosBoot ['H'.toUInt8, 'i'.toUInt8]))
      elfBootPieces }

theorem sosModuleBoot_elfBoot : ElfBoot sosPhdr sosModuleBoot where
  holds i h := ByteMem.holds_layAll (by decide) _ _ (List.getElem_mem h)
  elf a ha := by
    refine (layAll_elfBootPieces _ ha.1).trans (ByteMem.lay_of_notMem fun hin => ?_)
    rw [Set.mem_Ico] at ha hin
    omega
  filesz := by decide
  file := by decide
  room := by decide

theorem sosModuleBoot_module : ∀ start e,
    guestModule 0x1000 sosModuleBoot = .ok ((start, e), sosModuleBoot) →
      SosModule ['H'.toUInt8, 'i'.toUInt8] sosModuleBoot.mem start.toNat := by
  intro start e hm
  rw [sosModuleBoot_elfBoot.guestModule] at hm
  cases hm
  obtain ⟨hnum, -, hseg⟩ := sosModuleBoot_elfBoot.elf.header
  constructor
  · exact (imageEntry_congr sosModuleBoot_elfBoot.elf (by decide)).trans (sampleElf_entry sosPhdr)
  · refine ⟨0, hnum ▸ Nat.one_pos, sosPhdr, hseg.symm, by decide, rfl, by decide, ?_⟩
    intro k b hk
    rw [show sosModuleBoot.mem _ = _ from
      layAll_elfBootPieces _ (Nat.le_add_right_of_le (by decide))]
    exact ByteMem.holds_lay _ _ _ k b hk
  · decide
  · decide

/-- The guest prints `Hi`. -/
theorem sample_startVmm_sos_prints : ∃ hsa vm s' n c',
    startVmmMsr vmmEnd sampleCpuid 0x1000 ⟨0, 0, 0, 0, 0, 0⟩ sosModuleBoot =
      .ok ((hsa, vm), s') ∧ vm.vmcb = frameVaddr n ∧
    runAt (guestPlatform Stop.pageFault .hang (Vmcb.hCr3.value n s') (Vmcb.cr3.value n s')) .hang
      .hang 21 (UInt64.ofNat (Vmcb.rip.value n s')) ⟨fun _ => 0, false, true, s'.mem⟩ =
        .ok (.invalidOpcode, c') ∧
    c'.mem = s'.mem.lay 0xB8000 ['H'.toUInt8, 7, 'i'.toUInt8, 7] := by
  obtain ⟨hsa, vm, s', hrun⟩ := sosModuleBoot_elfBoot.startVmmMsr
  obtain ⟨n, c', hvmcb, hok, hmem, -⟩ := startVmm_sos_prints sosModuleBoot_elfBoot.mapEnds
    (by decide) sosModuleBoot_elfBoot.wellFormed sosModuleBoot_module hrun
    (c := ⟨fun _ => 0, false, true, s'.mem⟩) (Set.eqOn_refl _ _) (show 21 ≤ 21 from Nat.le_refl 21)
    Stop.pageFault .hang .hang .hang
  exact ⟨hsa, vm, s', n, c', hrun, hvmcb, hok, hmem⟩

end Tvmm
