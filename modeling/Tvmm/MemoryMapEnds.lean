import Tvmm.Lib.CInt
import Tvmm.Lib.Simulation
import Tvmm.MemoryMapReads

/-!
# `setup_memory_region` on any input

The stride of the loop is the size of a record, which the boot loader chooses.  Here the
map is the C array with its counter, the stores to the array are recorded, and the loads
come from a parameter, so that the memory may hold anything.

`E820Array.setupMemoryRegion_ends`: every turn goes at least 4 bytes forward, and the
loop ends, for the position passes every 32-bit length or the array is full.  The last
section connects the array to the `E820Map` of the model.
-/

namespace Tvmm

open Exec

/-- `struct e820_map`, with the elements behind the end of `map`, which C would write to
as well. -/
structure E820Array where
  nrMap : Int32
  map : Int → E820Entry
  /-- The indices of all stores to `map`, in their order. -/
  stores : List Int

namespace E820Array

/-- `add_memory_region` -/
def addMemoryRegion (e820 : E820Array) (start size : UInt64) (type : UInt32) :
    M E820Array :=
  if e820.nrMap ≥ Int32.ofNat E820_MAX_ENTRIES then
    fatalFailure "Too many entries in the memory map.\n"
  else
    let p := e820.nrMap.toInt
    let entry : E820Entry := { addr := start, size := size, type := type }
    pure
      { nrMap := e820.nrMap + 1
        map := fun i => if i = p then entry else e820.map i
        stores := e820.stores ++ [p] }

section Source

variable (load : UInt64 → M UInt32) (mbi : UInt64)

/-- One turn of the loop: the position `p` and the map. -/
def readRecord (turn : UInt64 × E820Array) : M ((UInt64 × E820Array) ⊕ E820Array) :=
  readRecordWith load load addMemoryRegion mbi turn

/-- `e820->nr_map = 0` -/
def clear (e820 : E820Array) : E820Array := { e820 with nrMap := 0 }

/-- `setup_memory_region`, which is given up as endless after `turns` evaluations of the
condition of its loop. -/
def setupMemoryRegion (turns : Nat) (e820 : E820Array) : M E820Array :=
  setupMemoryRegionWith load load addMemoryRegion mbi turns e820.clear

end Source

/-! ## One turn -/

/-- `n` records have been visited since `nr_map` was set to 0. -/
structure Visited (e820₀ : E820Array) (n : Nat) (e820 : E820Array) : Prop where
  nrMap : e820.nrMap = Int32.ofNat n
  le : n ≤ E820_MAX_ENTRIES
  stores : ∃ new, e820.stores = e820₀.stores ++ new ∧
    ∀ i ∈ new, 0 ≤ i ∧ i < E820_MAX_ENTRIES

section Turns

variable {load : UInt64 → M UInt32} {F : Stop → Prop} {mbi : UInt64} {e820₀ e820 : E820Array}
  {n : Nat} {p : UInt64} {s : State}

theorem Visited.clear (e820 : E820Array) : Visited e820 0 e820.clear :=
  ⟨rfl, Nat.zero_le _, [], (List.append_nil _).symm, List.forall_mem_nil _⟩

/-- The comparison in `add_memory_region` is one of `int`. -/
theorem Visited.full_iff (h : Visited e820₀ n e820) :
    e820.nrMap ≥ Int32.ofNat E820_MAX_ENTRIES ↔ E820_MAX_ENTRIES ≤ n := by
  have hle := h.le
  unfold E820_MAX_ENTRIES at hle ⊢
  rw [ge_iff_le, h.nrMap, Int32.ofNat_le_iff_le (by decide) (by omega)]

theorem Visited.index (h : Visited e820₀ n e820) : e820.nrMap.toInt = n := by
  have hle := h.le
  unfold E820_MAX_ENTRIES at hle
  rw [h.nrMap, Int32.toInt_ofNat_of_lt (by omega)]

/-- An entry is stored inside of the array, or not at all. -/
theorem wp_addMemoryRegion (h : Visited e820₀ n e820) (start size : UInt64)
    (type : UInt32) :
    wp (e820.addMemoryRegion start size type) (fun e820' _ => Visited e820₀ (n + 1) e820')
      (fun e => e = .fatalFailure "Too many entries in the memory map.\n") s := by
  rw [addMemoryRegion]
  split_ifs with hfull
  · exact wp_stop.mpr rfl
  rw [h.full_iff, Nat.not_le] at hfull
  obtain ⟨new, hnew, hin⟩ := h.stores
  rw [wp_pure]
  refine ⟨?_, hfull, new ++ [(n : Int)], ?_, ?_⟩
  · rw [h.nrMap, CInt.ofNat_succ]
  · rw [h.index, hnew, List.append_assoc]
  · intro i hi
    rw [List.mem_append, List.mem_singleton] at hi
    rcases hi with hi | rfl
    · exact hin i hi
    · exact ⟨Int.natCast_nonneg n, Int.ofNat_lt.mpr hfull⟩

/-- The stride is computed in 64 bits, and the position is below a 32-bit length. -/
theorem toNat_stride {len size : UInt32} (hp : p < len.toUInt64) :
    (p + (size.toUInt64 + 4)).toNat = p.toNat + (size.toNat + 4) := by
  have hlen := len.toNat_lt
  have hsize := size.toNat_lt
  rw [UInt64.lt_iff_toNat_lt, UInt32.toNat_toUInt64] at hp
  rw [UInt64.toNat_add, UInt64.toNat_add, UInt32.toNat_toUInt64,
    show (4 : UInt64).toNat = 4 from rfl]
  omega

/-- One turn visits one record and goes forward, or leaves the map as it is. -/
theorem wp_readRecord (hload : ∀ v s, wp (load v) (fun _ _ => True) F s)
    (h : Visited e820₀ n e820) :
    wp (readRecord load mbi (p, e820)) (fun r _ =>
      match r with
      | .inl (q, e820') => Visited e820₀ (n + 1) e820' ∧
          ∃ size : UInt32, q.toNat = p.toNat + (size.toNat + 4)
      | .inr e820' => e820' = e820)
      (fun e => (∃ msg, e = .fatalFailure msg) ∨ F e) s := by
  have hload' {β : Type} {f : UInt32 → M β} {Q : β → State → Prop} {v : UInt64} {s : State}
      (hf : ∀ x s', wp (f x) Q (fun e => (∃ msg, e = .fatalFailure msg) ∨ F e) s') :
      wp (load v >>= f) Q (fun e => (∃ msg, e = .fatalFailure msg) ∨ F e) s :=
    wp_bind.mpr (wp_mono (hload v s) (fun x s' _ => hf x s') fun _ he => Or.inr he)
  unfold readRecord readRecordWith
  refine hload' fun len s => ?_
  split_ifs with hp
  · refine hload' fun addr s => ?_
    simp only [readEntryVia, bind_assoc, pure_bind]
    refine hload' fun _ s => hload' fun _ s => hload' fun _ s => hload' fun _ s =>
      hload' fun _ s => ?_
    rw [wp_bind]
    refine wp_mono (wp_addMemoryRegion h _ _ _) ?_ fun e he => Or.inl ⟨_, he⟩
    intro e820' s hvisited
    refine hload' fun recordSize s => ?_
    exact wp_pure.mpr ⟨hvisited, recordSize, toNat_stride hp⟩
  · exact wp_pure.mpr rfl

end Turns

/-! ## All turns -/

section Runs

variable {load : UInt64 → M UInt32} {F : Stop → Prop} {mbi : UInt64} {e820₀ : E820Array}

/-- Whatever is in memory, the records that are visited are counted. -/
theorem visited_of_reachesIn {n : Nat} {turn : UInt64 × E820Array} {s s' : State}
    (h : ReachesIn (readRecord load mbi) (0, e820₀.clear) s n turn s') :
    Visited e820₀ n turn.2 := by
  induction h with
  | start => exact Visited.clear e820₀
  | next _ hstep ih =>
    have hload (v : UInt64) (s : State) : wp (load v) (fun _ _ => True) (fun _ => True) s :=
      wp_of_forall fun _ _ _ => trivial
    exact (wp_ok (wp_readRecord hload ih) hstep).1

theorem turns_le (n : Nat) (turn : UInt64 × E820Array) {s s' : State}
    (h : ReachesIn (readRecord load mbi) (0, e820₀.clear) s n turn s') :
    n ≤ E820_MAX_ENTRIES :=
  (visited_of_reachesIn h).le

/-- The loop is not cut short by the number of turns that it is given. -/
theorem setupMemoryRegion_eq_of_turns {turns : Nat} (hturns : turns ≥ 129) :
    setupMemoryRegion load mbi turns e820₀ = setupMemoryRegion load mbi 129 e820₀ := by
  unfold setupMemoryRegion setupMemoryRegionWith
  congr 1
  funext flags s
  split_ifs
  · rfl
  · exact loop_eq_of_turns (fun n j s' => turns_le n j) hturns

/-- A run that returns has the map to which the turns have led. -/
theorem wp_setupMemoryRegion (hload : ∀ v s, wp (load v) (fun _ _ => True) F s) {turns : Nat}
    (hturns : turns ≥ 129) (s : State) :
    wp (setupMemoryRegion load mbi turns e820₀) (fun e820 _ => ∃ n p s₀ s',
        ReachesIn (readRecord load mbi) (0, e820₀.clear) s₀ n (p, e820) s')
      (fun e => (∃ msg, e = .fatalFailure msg) ∨ F e) s := by
  unfold setupMemoryRegion setupMemoryRegionWith
  rw [wp_bind]
  refine wp_mono (hload mbi s) ?_ fun _ he => Or.inr he
  intro flags s₀ _
  split_ifs
  · exact wp_stop.mpr (Or.inl ⟨_, rfl⟩)
  refine wp_loop_of_turns (fun n j s' => turns_le n j) ?_ hturns
  rintro n ⟨p, e820⟩ s' hreach
  refine wp_imp (wp_readRecord hload (visited_of_reachesIn hreach)) ?_
  rintro r s'' hr e820' rfl
  obtain rfl : e820' = e820 := hr
  exact ⟨n, p, s₀, s', hreach⟩

/-- The loop of `setup_memory_region` ends, on any input: with the map after so many
turns, in `fatal_failure`, or where a load stops. -/
theorem setupMemoryRegion_ends (hload : ∀ v s, wp (load v) (fun _ _ => True) F s)
    (mbi : UInt64) (e820₀ : E820Array) :
    (∀ n p e820 s s', ReachesIn (readRecord load mbi) (0, e820₀.clear) s n (p, e820) s' →
      Visited e820₀ n e820 ∧
      (∀ start size type s'', wp (e820.addMemoryRegion start size type)
        (fun e820' _ => Visited e820₀ (n + 1) e820')
        (fun e => e = .fatalFailure "Too many entries in the memory map.\n") s'') ∧
      ∀ q e820' s'', readRecord load mbi (p, e820) s' = .ok (.inl (q, e820'), s'') →
        ∃ size : UInt32, q.toNat = p.toNat + (size.toNat + 4)) ∧
    (∀ turns ≥ 129, setupMemoryRegion load mbi turns e820₀ =
      setupMemoryRegion load mbi 129 e820₀) ∧
    ∀ s, wp (setupMemoryRegion load mbi 129 e820₀) (fun e820 _ => ∃ n p s₀ s',
        ReachesIn (readRecord load mbi) (0, e820₀.clear) s₀ n (p, e820) s')
      (fun e => (∃ msg, e = .fatalFailure msg) ∨ F e) s := by
  refine ⟨?_, fun turns hturns => setupMemoryRegion_eq_of_turns hturns,
    wp_setupMemoryRegion hload (Nat.le_refl 129)⟩
  intro n p e820 s s' hreach
  have hvisited := visited_of_reachesIn hreach
  refine ⟨hvisited, fun start size type s'' => wp_addMemoryRegion hvisited _ _ _, ?_⟩
  intro q e820' s'' hrun
  exact (wp_ok (wp_readRecord hload hvisited) hrun).2

end Runs

/-- A memory that is mapped everywhere. -/
def flat (content : UInt64 → UInt32) (v : UInt64) : M UInt32 := pure (content v)

/-- The size of every record and the length of the map are `2 ^ 32 - 4`. -/
def hugeSizes (v : UInt64) : UInt32 := if v = 0 then MBI_MEMMAP else 0xFFFFFFFC

def sampleArray : E820Array := ⟨7, fun _ => ⟨0, 0, 0⟩, []⟩

theorem sample_setupMemoryRegion_ends :
    (∀ turns ≥ 129, setupMemoryRegion (flat hugeSizes) 0 turns sampleArray =
      setupMemoryRegion (flat hugeSizes) 0 129 sampleArray) ∧
    ∀ s, wp (setupMemoryRegion (flat hugeSizes) 0 129 sampleArray)
      (fun e820 _ => ∃ n p s₀ s',
        ReachesIn (readRecord (flat hugeSizes) 0) (0, sampleArray.clear) s₀ n (p, e820) s')
      (fun e => (∃ msg, e = .fatalFailure msg) ∨ False) s :=
  (setupMemoryRegion_ends (F := fun _ => False) (fun _ _ => wp_pure.mpr trivial) 0
    sampleArray).2

/-! ## The array and the map -/

/-- The first `nr_map` elements of the array are the entries of the map. -/
structure Holds (a : E820Array) (e820 : E820Map) : Prop where
  nrMap : a.nrMap = Int32.ofNat e820.map.length
  map : ∀ (k : Nat) (h : k < e820.map.length), a.map k = e820.map[k]

section Map

variable {a : E820Array} {e820 : E820Map} {s : State}

theorem Holds.clear (a : E820Array) :
    a.clear.Holds { map := [], length_le := Nat.zero_le _ } :=
  ⟨rfl, fun _ h => absurd h (Nat.not_lt_zero _)⟩

theorem Holds.visited (h : a.Holds e820) : Visited a e820.map.length a :=
  ⟨h.nrMap, e820.length_le, [], (List.append_nil _).symm, List.forall_mem_nil _⟩

/-- `add_memory_region` does the same to the array and to the map. -/
theorem Holds.addMemoryRegion (h : a.Holds e820) (start size : UInt64) (type : UInt32) :
    EndsAlike (Tvmm.addMemoryRegion e820 start size type) (a.addMemoryRegion start size type)
      (fun e820' s' a' t' => s' = t' ∧ a'.Holds e820') s s := by
  rw [Tvmm.addMemoryRegion, E820Array.addMemoryRegion]
  by_cases hfull : e820.map.length ≥ E820_MAX_ENTRIES
  · rw [dif_pos hfull, if_pos (h.visited.full_iff.mpr hfull)]
    exact .stop _
  rw [dif_neg hfull, if_neg (mt h.visited.full_iff.mp hfull)]
  refine .pure ⟨rfl, ?_, ?_⟩
  · show a.nrMap + 1 = _
    rw [h.nrMap, CInt.ofNat_succ, List.length_append, List.length_singleton]
  · intro k hk
    show (if (k : Int) = a.nrMap.toInt then _ else a.map k) = _
    rw [h.visited.index, List.getElem_append]
    split_ifs with heq hlt hlt
    · omega
    · rw [List.getElem_singleton]
    · exact h.map k hlt
    · rw [List.length_append, List.length_singleton] at hk
      omega

/-- The two models make a turn alike. -/
theorem Holds.readRecord (h : a.Holds e820) (mbi p : UInt64) :
    EndsAlike (readRecordVia load32 mbi p e820) (readRecord load32 mbi (p, a))
      (fun r s' r' t' => Sum.LiftRel
        (fun i j => i.1 = j.1 ∧ s' = t' ∧ j.2.Holds i.2)
        (fun e820' a' => s' = t' ∧ a'.Holds e820') r r') s s := by
  unfold readRecordVia E820Array.readRecord readRecordWith
  refine .bind_self fun len s => ?_
  split_ifs with hp
  · refine .bind_self fun addr s => .bind_self fun entry s => ?_
    refine (h.addMemoryRegion _ _ _).bind ?_
    rintro e820' s a' _ ⟨rfl, h'⟩
    refine .bind_self fun recordSize s => ?_
    exact .pure (.inl ⟨rfl, rfl, h'⟩)
  · exact .pure (.inr ⟨rfl, h⟩)

/-- `setup_memory_region` does the same to the array and to the map. -/
theorem setupMemoryRegion_alike (mbi : UInt64) (a : E820Array) (s : State) :
    EndsAlike (Tvmm.setupMemoryRegion mbi) (setupMemoryRegion load32 mbi LONG_FUEL a)
      (fun e820 s' a' t' => s' = t' ∧ a'.Holds e820) s s := by
  unfold Tvmm.setupMemoryRegion setupMemoryRegion setupMemoryRegionWith
  refine .bind_self fun flags s => ?_
  split_ifs
  · exact .stop _
  refine .loop (fun i s' j t' => i.1 = j.1 ∧ s' = t' ∧ j.2.Holds i.2) ?_ _ _ _ _ _
    ⟨rfl, rfl, .clear a⟩
  rintro ⟨p, e820⟩ s ⟨_, a'⟩ _ ⟨rfl, rfl, h⟩
  exact h.readRecord mbi p

end Map

end E820Array

/-- On the machine the memory map is read to its end, or there is a fatal failure or a
page fault. -/
theorem setupMemoryRegion_not_hang (mbi : UInt64) (s : State) :
    setupMemoryRegion mbi s ≠ .error .hang := by
  intro hhang
  have hload (v : UInt64) (s : State) :
      wp (load32 v) (fun _ _ => True) (fun e => ∃ u, e = .pageFault u) s :=
    wp_load32 (Or.inr fun u => ⟨u, rfl⟩) fun _ _ => trivial
  have hends := (E820Array.setupMemoryRegion_alike mbi E820Array.sampleArray s).wp
    (E820Array.wp_setupMemoryRegion hload (by decide) s)
  obtain ⟨msg, h⟩ | ⟨u, h⟩ := wp_error hends hhang
  · cases h
  · cases h

end Tvmm
