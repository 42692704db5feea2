import Tvmm.Lib.GuestRun
import Tvmm.Lib.X86

/-!
# Running machine code from memory

`X86.run` runs a list of instructions.  Here they come from memory: `fetch` reads the
bytes at the instruction pointer as the platform translates it, `decode` takes the
first instruction off them, and `runAt` goes on with the next one.  The platform may
depend on memory, because page tables are in memory.

`wp_runAt` is the rule for one instruction.  `GuestPlatform` runs the code on the two
page tables of a guest; `wp_runAt_guestRun` says that all it does to memory is a
`GuestRun`.
-/

namespace X86

open Exec

/-! ## Instructions -/

/-- An instruction in memory.  A jump goes to the next instruction plus `disp`. -/
inductive MachineInstr where
  | op (o : Op)
  | jmp (disp : UInt64)
  | je (disp : UInt64)
  | ud2
  deriving DecidableEq, Repr

/-- The number with these four bytes, least significant byte first. -/
def imm32 (a b c d : UInt8) : Nat :=
  a.toNat + 256 * (b.toNat + 256 * (c.toNat + 256 * d.toNat))

/-- A displacement of `n` bits, sign-extended. -/
def signExtend (n x : Nat) : UInt64 :=
  UInt64.ofNat (if x < 2 ^ (n - 1) then x else 2 ^ 64 - 2 ^ n + x)

/-- The first instruction and its length.  What is not listed here is not decoded, nor
is an instruction with missing bytes. -/
def decode : List UInt8 → Option (MachineInstr × Nat)
  | 0xbe :: a :: b :: c :: d :: _ => some (.op (.movImm .rsi (UInt32.ofNat (imm32 a b c d))), 5)
  | 0xbf :: a :: b :: c :: d :: _ => some (.op (.movImm .rdi (UInt32.ofNat (imm32 a b c d))), 5)
  | 0xb0 :: x :: _ => some (.op (.movByte .rax x), 2)
  | 0x67 :: 0x8a :: 0x1e :: _ => some (.op (.loadByte .rbx .rsi), 3)
  | 0x84 :: 0xdb :: _ => some (.op (.testByte .rbx), 2)
  | 0xa4 :: _ => some (.op .movsb, 1)
  | 0xaa :: _ => some (.op .stosb, 1)
  | 0xe9 :: a :: b :: c :: d :: _ => some (.jmp (signExtend 32 (imm32 a b c d)), 5)
  | 0xeb :: x :: _ => some (.jmp (signExtend 8 x.toNat), 2)
  | 0x74 :: x :: _ => some (.je (signExtend 8 x.toNat), 2)
  | 0x0f :: 0x0b :: _ => some (.ud2, 2)
  | _ => none

section Semantics

variable {ε : Type}

/-- Execute an instruction; `next` is the address behind it. -/
def MachineInstr.exec (p : Platform ε) (next : UInt64) :
    MachineInstr → Exec Cpu ε (UInt64 ⊕ Leave)
  | op o => do
      o.exec p
      return .inl next
  | jmp disp => return .inl (next + disp)
  | je disp => do
      let c ← get
      return .inl (if c.zf then next + disp else next)
  | ud2 => return .inr .invalidOpcode

/-- The bytes from `v` on that can be read, at most `n`. -/
def fetch (p : Platform ε) (m : ByteMem) : Nat → UInt64 → List UInt8
  | 0, _ => []
  | n + 1, v =>
    match p.translate v 1 with
    | some a => m a :: fetch p m n (v + 1)
    | none => []

/-- Execute the instruction at `rip`.  An instruction has at most 15 bytes. -/
def stepAt (pf : ByteMem → Platform ε) (other : ε) (rip : UInt64) :
    Exec Cpu ε (UInt64 ⊕ Leave) := do
  let c ← get
  match decode (fetch (pf c.mem) c.mem 15 rip) with
  | some (i, n) => i.exec (pf c.mem) (rip + UInt64.ofNat n)
  | none => Exec.stop other

/-- Run the code at `rip` until it is left. -/
def runAt (pf : ByteMem → Platform ε) (other hang : ε) (fuel : Nat) (rip : UInt64) :
    Exec Cpu ε Leave :=
  loop hang (stepAt pf other) fuel rip

end Semantics

/-! ## Rules -/

section Rules

variable {ε : Type} {p : Platform ε} {m : ByteMem} {v : UInt64} {bs : List UInt8}

/-- The bytes at `v` are `bs`. -/
def CodeAt (p : Platform ε) (m : ByteMem) : UInt64 → List UInt8 → Prop
  | _, [] => True
  | v, b :: bs => (∃ a, p.translate v 1 = some a ∧ m a = b) ∧ CodeAt p m (v + 1) bs

theorem codeAt_append {xs ys : List UInt8} : CodeAt p m v (xs ++ ys) ↔
    CodeAt p m v xs ∧ CodeAt p m (v + UInt64.ofNat xs.length) ys := by
  induction xs generalizing v with
  | nil => simp [CodeAt]
  | cons x xs ih =>
    have hnext : v + UInt64.ofNat (xs.length + 1) = v + 1 + UInt64.ofNat xs.length := by
      rw [UInt64.ofNat_add, UInt64.add_comm (UInt64.ofNat xs.length), ← UInt64.add_assoc]
      rfl
    rw [List.cons_append, CodeAt, CodeAt, ih, List.length_cons, hnext, and_assoc]

/-- The code at `v` is what is fetched there, whatever lies behind it. -/
theorem CodeAt.fetch (h : CodeAt p m v bs) {n : Nat} (hn : bs.length ≤ n) :
    ∃ rest, X86.fetch p m n v = bs ++ rest := by
  induction bs generalizing v n with
  | nil => exact ⟨_, rfl⟩
  | cons b bs ih =>
    obtain ⟨⟨a, ha, rfl⟩, hbs⟩ := h
    obtain ⟨n, rfl⟩ : ∃ k, n = k + 1 := Nat.exists_eq_add_one.mpr (Nat.zero_lt_of_lt hn)
    obtain ⟨rest, hrest⟩ := ih hbs (Nat.le_of_succ_le_succ hn)
    refine ⟨rest, ?_⟩
    rw [X86.fetch, ha]
    dsimp only
    rw [hrest, List.cons_append]

/-- The bytes `bs` are the instruction `i`. -/
def Encodes (bs : List UInt8) (i : MachineInstr) : Prop :=
  bs.length ≤ 15 ∧ ∀ rest, decode (bs ++ rest) = some (i, bs.length)

/-- One instruction. -/
theorem wp_runAt {pf : ByteMem → Platform ε} {other hang : ε} {c : Cpu} {i : MachineInstr}
    {fuel : Nat} {Q : Leave → Cpu → Prop} {E : ε → Prop}
    (hcode : CodeAt (pf c.mem) c.mem v bs) (hi : Encodes bs i)
    (h : wp (i.exec (pf c.mem) (v + UInt64.ofNat bs.length)) (fun r c' =>
      match r with
      | .inl v' => wp (runAt pf other hang fuel v') Q E c'
      | .inr out => Q out c') E c) :
    wp (runAt pf other hang (fuel + 1) v) Q E c := by
  obtain ⟨rest, hfetch⟩ := hcode.fetch hi.1
  rw [runAt, loop, wp_bind, stepAt, wp_bind, wp_get, hfetch, hi.2]
  refine wp_imp h fun r c' hr => ?_
  cases r with
  | inl v' => exact hr
  | inr out =>
    rw [wp_pure]
    exact hr

end Rules

/-! ## Bytes in memory -/

section Bytes

variable {ε : Type} {p : Platform ε} {c : Cpu} {Q : Unit → Cpu → Prop} {E : ε → Prop}

theorem wp_loadByte {dst base : Reg} {a : Nat}
    (hbase : p.translate (c.reg base &&& 0xffffffff) 1 = some a)
    (hQ : Q () (c.setLow dst (c.mem a))) : wp (Op.exec p (.loadByte dst base)) Q E c := by
  rw [Op.exec, wp_bind, wp_get, wp_bind]
  apply wp_of_ok (load_of_mapped hbase)
  rwa [wp_modify, ByteMem.readLE_one, UInt8.ofNat_toNat]

/-- A byte was copied from `a` to `b`. -/
structure Movsb (a b : Nat) (c c' : Cpu) : Prop where
  mem : c'.mem = Function.update c.mem b (c.mem a)
  rsi : c'.reg .rsi = c.reg .rsi + 1
  rdi : c'.reg .rdi = c.reg .rdi + 1

theorem wp_movsb {a b : Nat} (hsi : p.translate (c.reg .rsi) 1 = some a)
    (hdi : p.translate (c.reg .rdi) 1 = some b) (hQ : ∀ c', Movsb a b c c' → Q () c') :
    wp (Op.exec p .movsb) Q E c := by
  rw [Op.exec, wp_bind, wp_get, wp_bind]
  apply wp_of_ok (load_of_mapped hsi)
  rw [wp_bind]
  apply wp_of_ok (store_of_mapped hdi)
  rw [wp_modify]
  apply hQ
  constructor
  · rw [Cpu.set_mem, Cpu.set_mem, ByteMem.readLE_one, ByteMem.writeLE_one, UInt8.ofNat_toNat]
  · rw [Cpu.set_reg_of_ne _ (by decide), Cpu.set_reg_self]
  · rw [Cpu.set_reg_self]

/-- The low byte of `rax` was written to `b`. -/
structure Stosb (b : Nat) (c c' : Cpu) : Prop where
  mem : c'.mem = Function.update c.mem b (c.reg .rax).toUInt8
  rsi : c'.reg .rsi = c.reg .rsi
  rdi : c'.reg .rdi = c.reg .rdi + 1

theorem wp_stosb {b : Nat} (hdi : p.translate (c.reg .rdi) 1 = some b)
    (hQ : ∀ c', Stosb b c c' → Q () c') : wp (Op.exec p .stosb) Q E c := by
  rw [Op.exec, wp_bind, wp_get, wp_bind]
  apply wp_of_ok (store_of_mapped hdi)
  rw [wp_modify]
  apply hQ
  constructor
  · rw [Cpu.set_mem, ByteMem.writeLE_one]
    rfl
  · exact Cpu.set_reg_of_ne _ (by decide) _
  · rw [Cpu.set_reg_self]

end Bytes

/-! ## Stores of an instruction -/

section Stores

variable {ε : Type} {p : Platform ε} {c : Cpu}

theorem wp_load_any {n : Nat} {v : UInt64} {Q : Nat → Cpu → Prop} (hQ : ∀ x, Q x c) :
    wp (load p n v) Q (fun _ => True) c := by
  unfold wp load
  cases p.translate v n with
  | none => trivial
  | some a => exact hQ _

theorem wp_store_any {n x : Nat} {v : UInt64} {Q : Unit → Cpu → Prop}
    (hQ : ∀ a, p.translate v n = some a → Q () { c with mem := c.mem.writeLE a n x }) :
    wp (store p n v x) Q (fun _ => True) c := by
  unfold wp store
  cases ha : p.translate v n with
  | none => trivial
  | some a => exact hQ a ha

/-- An instruction writes at most one range of mapped bytes. -/
def StoresOnce (p : Platform ε) (m m' : ByteMem) : Prop :=
  m' = m ∨ ∃ v n a x, p.translate v n = some a ∧ m' = m.writeLE a n x

theorem Op.wp_exec_mem {e : ε} (hvmrun : p.vmrun = Exec.stop e) (o : Op) :
    wp (o.exec p) (fun _ c' => StoresOnce p c.mem c'.mem) (fun _ => True) c := by
  have hkeep : ∀ f : Cpu → Cpu, (f c).mem = c.mem →
      wp (Exec.modify f) (fun _ c' => StoresOnce p c.mem c'.mem) (fun _ : ε => True) c := by
    intro f hf
    rw [wp_modify]
    exact Or.inl hf
  have hstore : ∀ n v x (f : Cpu → Cpu), (∀ c, (f c).mem = c.mem) →
      wp (do store p n v x; Exec.modify f) (fun _ c' => StoresOnce p c.mem c'.mem)
        (fun _ => True) c := by
    intro n v x f hf
    rw [wp_bind]
    apply wp_store_any
    intro a ha
    rw [wp_modify, hf]
    exact Or.inr ⟨v, n, a, x, ha, rfl⟩
  cases o with
  | mov dst src => exact hkeep _ rfl
  | movImm dst x => exact hkeep _ rfl
  | movByte dst x => exact hkeep _ rfl
  | loadByte dst base =>
    rw [Op.exec, wp_bind, wp_get, wp_bind]
    apply wp_load_any
    intro x
    exact hkeep _ rfl
  | testByte r => exact hkeep _ rfl
  | movsb =>
    rw [Op.exec, wp_bind, wp_get, wp_bind]
    apply wp_load_any
    intro x
    exact hstore 1 _ x _ fun _ => rfl
  | stosb =>
    rw [Op.exec, wp_bind, wp_get]
    exact hstore 1 _ _ _ fun _ => rfl
  | push r =>
    rw [Op.exec, wp_bind, wp_get]
    exact hstore 8 _ _ _ fun _ => rfl
  | pop r =>
    rw [Op.exec, wp_bind, wp_get, wp_bind]
    apply wp_load_any
    intro x
    exact hkeep _ rfl
  | clgi => exact hkeep _ rfl
  | stgi => exact hkeep _ rfl
  | vmrun =>
    rw [Op.exec, hvmrun, wp_stop]
    trivial

theorem MachineInstr.wp_exec_mem {e : ε} (hvmrun : p.vmrun = Exec.stop e) (next : UInt64)
    (i : MachineInstr) :
    wp (i.exec p next) (fun _ c' => StoresOnce p c.mem c'.mem) (fun _ => True) c := by
  cases i with
  | op o =>
    rw [MachineInstr.exec, wp_bind]
    apply wp_imp (o.wp_exec_mem hvmrun)
    intro _ c' h
    rwa [wp_pure]
  | jmp disp =>
    rw [MachineInstr.exec, wp_pure]
    exact Or.inl rfl
  | je disp =>
    rw [MachineInstr.exec, wp_bind, wp_get, wp_pure]
    exact Or.inl rfl
  | ud2 =>
    rw [MachineInstr.exec, wp_pure]
    exact Or.inl rfl

end Stores

/-! ## On the page tables of a guest -/

section Guest

open LongMode

/-- Where the byte at `v` of a guest is in physical memory. -/
def guestByte (m : ByteMem) (nCr3 gCr3 : Nat) (v : UInt64) : Option Nat :=
  if Canonical v then guestWalk m nCr3 gCr3 v.toNat else none

/-- Where `n` bytes of a guest are in physical memory, when they lie together there. -/
def guestTranslate (m : ByteMem) (nCr3 gCr3 : Nat) (v : UInt64) (n : Nat) : Option Nat :=
  (guestByte m nCr3 gCr3 v).bind fun a =>
    if ∀ k < n, guestByte m nCr3 gCr3 (v + UInt64.ofNat k) = some (a + k) then some a else none

variable {ε : Type} (pageFault : UInt64 → ε) (exit : ε)

/-- The processor in a guest, which exits when it executes `VMRUN` itself. -/
def guestPlatform (nCr3 gCr3 : Nat) (m : ByteMem) : Platform ε where
  translate := guestTranslate m nCr3 gCr3
  pageFault := pageFault
  vmrun := Exec.stop exit

variable {m₀ m : ByteMem} {nCr3 gCr3 : Nat} {R T : Set Nat}

theorem guestTranslate_access {v : UInt64} {n a : Nat}
    (h : guestTranslate m nCr3 gCr3 v n = some a) {k : Nat} (hk : k < n) :
    ∃ g, guestAccess m nCr3 g = some (a + k) := by
  obtain ⟨a', -, h⟩ := Option.bind_eq_some_iff.mp h
  split_ifs at h with hbytes
  cases h
  have hbyte := hbytes k hk
  unfold guestByte at hbyte
  split_ifs at hbyte
  obtain ⟨t, -, ht⟩ := Option.bind_eq_some_iff.mp hbyte
  exact ⟨t.paddr, ht⟩

/-- A store of several bytes, one after the other. -/
theorem guestRun_writeLE (henc : Enclosed m₀ nCr3 R T) (hrun : GuestRun nCr3 m₀ m) {a n : Nat}
    (h : ∀ k < n, ∃ g, guestAccess m nCr3 g = some (a + k)) (x : Nat) :
    GuestRun nCr3 m₀ (m.writeLE a n x) := by
  induction n with
  | zero =>
    rwa [ByteMem.writeLE_zero]
  | succ n ih =>
    have hn := ih fun k hk => h k (Nat.lt_succ_of_lt hk)
    obtain ⟨g, hg⟩ := h n (Nat.lt_succ_self n)
    -- The stores before do not change where this one goes.
    have hg' : guestAccess (m.writeLE a n x) nCr3 g = some (a + n) := by
      rw [(hn.keeps henc).guestAccess_eq henc, ← (hrun.keeps henc).guestAccess_eq henc]
      exact hg
    rw [ByteMem.writeLE_succ]
    exact hn.tail (.store _ hg')

/-- All that the code of a guest does to memory is a run of the guest. -/
theorem wp_runAt_guestRun (henc : Enclosed m₀ nCr3 R T) {other hang : ε} (fuel : Nat)
    (rip : UInt64) {c : Cpu} (hc : GuestRun nCr3 m₀ c.mem) :
    wp (runAt (guestPlatform pageFault exit nCr3 gCr3) other hang fuel rip)
      (fun _ c' => GuestRun nCr3 m₀ c'.mem) (fun _ => True) c := by
  apply wp_loop_partial (fun _ c => GuestRun nCr3 m₀ c.mem) trivial
  · intro v c hrun
    have hstep : wp (stepAt (guestPlatform pageFault exit nCr3 gCr3) other v)
        (fun _ c' => GuestRun nCr3 m₀ c'.mem) (fun _ => True) c := by
      rw [stepAt, wp_bind, wp_get]
      split
      · apply wp_imp (MachineInstr.wp_exec_mem rfl _ _)
        intro _ c' hmem
        rcases hmem with hmem | ⟨v, n, a, x, ha, hmem⟩
        · rwa [hmem]
        · rw [hmem]
          exact guestRun_writeLE henc hrun (fun k hk => guestTranslate_access ha hk) x
      · rw [wp_stop]
        trivial
    apply wp_imp hstep
    intro r c' hr
    cases r with
    | inl v' => exact hr
    | inr out => exact hr
  · exact hc

end Guest

end X86
