import Mathlib
import RegisterMachine.Proofs.BackPatching

/-!
# Registers are handed out as a stack

A builder hands out registers and takes the last ones back.  A client sees only the answers to its
calls, and can keep a `Ledger` of them: the registers that it holds, how often it got one, and how
many it gave back.  `allocation_invariant` says that the two agree after any calls on a new builder,
also those that fail and those about the code or the parameters.

| of the builder | is                                                            |
|----------------|---------------------------------------------------------------|
| `live`         | the number of registers taken without those given back        |
| `maxUsed`      | the largest number of registers that were in use at one time  |

What a call does to the registers is one of four things (`Change`).  Each keeps the builder and the
ledger in balance (`Balanced.change`), and changes `maxUsed` only as the number of registers in use
demands (`Change.maxUsed_eq`).
-/

namespace RegisterMachine

namespace FunctionBuilder

/-! ## Calls and what a client knows of them -/

/-- What a client can ask of a function in the making. -/
inductive BuilderCall where
  | allocate
  | free (count : Nat)
  | params (count : UInt16)
  | locals (count : UInt16)
  | code (call : CodeCall)

/-- Makes a call; the answer holds the register that was handed out. -/
def serve (builder : FunctionBuilder) : BuilderCall → Attempt FunctionBuilder (Option UInt8)
  | .allocate => builder.allocateRegister.map (Except.map some) id
  | .free count => (builder.freeRegisters count).map (Except.map fun _ => none) id
  | .params count => (.ok none, { builder with paramCount := count })
  | .locals count => (.ok none, { builder with localCount := count })
  | .code call => (builder.attempt call).map (Except.map fun _ => none) id

/-- The registers that a client holds, in the order in which it got them, how often it got one, and
how many it gave back. -/
structure Ledger where
  held : List UInt8
  taken : Nat
  freed : Nat
deriving DecidableEq

/-- Writes a call and its answer down.  For a call that failed there is nothing to write. -/
def Ledger.record (ledger : Ledger) : BuilderCall → Except Error (Option UInt8) → Ledger
  | .allocate, .ok (some register) =>
    { ledger with held := ledger.held ++ [register], taken := ledger.taken + 1 }
  | .free count, .ok _ =>
    { ledger with held := ledger.held.rdrop count, freed := ledger.freed + count }
  | _, _ => ledger

/-- The builder and the ledger after one more call. -/
def proceed (state : FunctionBuilder × Ledger) (call : BuilderCall) : FunctionBuilder × Ledger :=
  ((state.1.serve call).2, state.2.record call (state.1.serve call).1)

/-- A new builder and its ledger after calls. -/
def history (name : String) (location : SourceLocation) (calls : List BuilderCall) :
    FunctionBuilder × Ledger :=
  calls.foldl proceed (new name location, ⟨[], 0, 0⟩)

theorem history_concat (name : String) (location : SourceLocation) (calls : List BuilderCall)
    (call : BuilderCall) :
    history name location (calls ++ [call]) = proceed (history name location calls) call := by
  rw [history, List.foldl_append]
  rfl

/-! ## One call -/

/-- `Change stack call answer next`: the call can have this answer, and make `next` of the registers. -/
inductive Change (stack : RegisterStack) :
    BuilderCall → Except Error (Option UInt8) → RegisterStack → Prop
  | refused (call : BuilderCall) (error : Error) : Change stack call (.error error) stack
  | allocated {register : UInt8} : stack.live < registerCapacity → register.toNat = stack.live →
      Change stack .allocate (.ok (some register))
        ⟨stack.live + 1, max stack.maxUsed (stack.live + 1)⟩
  | freed {count : Nat} : count ≤ stack.live →
      Change stack (.free count) (.ok none) ⟨stack.live - count, stack.maxUsed⟩
  | other {call : BuilderCall} : call ≠ .allocate → (∀ count, call ≠ .free count) →
      Change stack call (.ok none) stack

theorem allocateRegister_eq (builder : FunctionBuilder) :
    builder.allocateRegister
      = if builder.registers.live < registerCapacity then
          (.ok (UInt8.ofNat builder.registers.live),
            { builder with registers := ⟨builder.registers.live + 1,
                max builder.registers.maxUsed (builder.registers.live + 1)⟩ })
        else (.error (.registerOverflow registerCapacity), builder) := by
  rw [allocateRegister, RegisterStack.allocate]
  by_cases hroom : builder.registers.live < registerCapacity
  · rw [if_pos hroom, if_neg (Nat.not_le_of_lt hroom)]
  · rw [if_neg hroom, if_pos (Nat.le_of_not_lt hroom)]

theorem freeRegisters_eq (builder : FunctionBuilder) (count : Nat) :
    builder.freeRegisters count
      = if count ≤ builder.registers.live then
          (.ok (), { builder with registers :=
            ⟨builder.registers.live - count, builder.registers.maxUsed⟩ })
        else (.error (.registerUnderflow count builder.registers.live), builder) := by
  rw [freeRegisters, RegisterStack.free]
  by_cases hle : count ≤ builder.registers.live
  · rw [if_pos hle, if_neg (Nat.not_lt_of_le hle)]
  · rw [if_neg hle, if_pos (Nat.lt_of_not_le hle)]

/-- The next register has the number of those in use, which a byte can hold. -/
theorem allocateRegister_eq_ok {builder : FunctionBuilder} {register : UInt8} :
    builder.allocateRegister.1 = .ok register ↔
      builder.registers.live < registerCapacity ∧ register.toNat = builder.registers.live := by
  rw [allocateRegister_eq]
  constructor
  · intro h
    split at h
    · rename_i hroom
      cases h
      exact ⟨hroom, UInt8.toNat_ofNat_of_lt' hroom⟩
    · cases h
  · rintro ⟨hroom, hregister⟩
    rw [if_pos hroom, ← hregister, UInt8.ofNat_toNat]

theorem freeRegisters_eq_ok {builder : FunctionBuilder} {count : Nat} :
    (builder.freeRegisters count).1 = .ok () ↔ count ≤ builder.registers.live := by
  rw [freeRegisters_eq]
  split
  · rename_i hle
    exact ⟨fun _ => hle, fun _ => rfl⟩
  · rename_i hle
    exact ⟨fun h => (by cases h), fun h => absurd h hle⟩

/-- What one call can do to the registers. -/
theorem serve_change (builder : FunctionBuilder) (call : BuilderCall) :
    Change builder.registers call (builder.serve call).1 (builder.serve call).2.registers := by
  cases call with
  | allocate =>
      rw [serve, allocateRegister_eq]
      split
      · rename_i hroom
        exact .allocated hroom (UInt8.toNat_ofNat_of_lt' hroom)
      · exact .refused _ _
  | free count =>
      rw [serve, freeRegisters_eq]
      split
      · rename_i hle
        exact .freed hle
      · exact .refused _ _
  | params count => exact .other (fun h => by cases h) fun _ h => by cases h
  | locals count => exact .other (fun h => by cases h) fun _ h => by cases h
  | code call =>
      have hout := builder.attempt_outcome call
      rw [serve]
      generalize builder.attempt call = out at hout ⊢
      obtain ⟨result, next⟩ := out
      cases hout with
      | refused => exact .refused _ _
      | appended => exact .other (fun h => by cases h) fun _ h => by cases h
      | patched => exact .other (fun h => by cases h) fun _ h => by cases h

/-- A call that fails leaves the builder as it was. -/
theorem serve_of_error {builder : FunctionBuilder} {call : BuilderCall} {error : Error}
    (h : (builder.serve call).1 = .error error) : (builder.serve call).2 = builder := by
  cases call with
  | allocate =>
      rw [serve, allocateRegister_eq] at h ⊢
      split at h
      · cases h
      · rename_i hfull
        rw [if_neg hfull]
        rfl
  | free count =>
      rw [serve, freeRegisters_eq] at h ⊢
      split at h
      · cases h
      · rename_i hle
        rw [if_neg hle]
        rfl
  | params count => cases h
  | locals count => cases h
  | code call =>
      cases hresult : (builder.attempt call).1 with
      | error cause => exact attempt_of_error hresult
      | ok done =>
          rw [serve, Prod.map_fst, hresult] at h
          cases h

/-! ## All calls -/

/-- The builder hands out registers as the ledger says. -/
structure Balanced (stack : RegisterStack) (ledger : Ledger) : Prop where
  held : ledger.held.map UInt8.toNat = List.range stack.live
  taken : stack.live + ledger.freed = ledger.taken
  live_le : stack.live ≤ stack.maxUsed
  maxUsed_le : stack.maxUsed ≤ registerCapacity

namespace Change

variable {stack next : RegisterStack} {ledger : Ledger} {call : BuilderCall}
  {answer : Except Error (Option UInt8)}

/-- The largest number of registers changes only if more are in use than ever. -/
theorem maxUsed_eq (h : Change stack call answer next) (hle : stack.live ≤ stack.maxUsed) :
    next.maxUsed = max stack.maxUsed next.live := by
  cases h with
  | refused => exact (Nat.max_eq_left hle).symm
  | allocated => rfl
  | freed => exact (Nat.max_eq_left ((Nat.sub_le _ _).trans hle)).symm
  | other => exact (Nat.max_eq_left hle).symm

theorem balanced (h : Change stack call answer next) (hbalanced : Balanced stack ledger) :
    Balanced next (ledger.record call answer) := by
  obtain ⟨hheld, htaken, hlive, hmax⟩ := hbalanced
  cases h with
  | refused call error =>
      have hsame : ledger.record call (.error error) = ledger := by cases call <;> rfl
      rw [hsame]
      exact ⟨hheld, htaken, hlive, hmax⟩
  | @allocated register hroom hregister =>
      refine ⟨?_, ?_, Nat.le_max_right _ _, Nat.max_le.mpr ⟨hmax, hroom⟩⟩
      · show (ledger.held ++ [register]).map UInt8.toNat = List.range (stack.live + 1)
        rw [List.map_append, hheld, List.map_singleton, hregister, List.range_succ]
      · show stack.live + 1 + ledger.freed = ledger.taken + 1
        omega
  | @freed count hle =>
      have hlength : ledger.held.length = stack.live := by
        rw [← List.length_map UInt8.toNat, hheld, List.length_range]
      refine ⟨?_, ?_, (Nat.sub_le _ _).trans hlive, hmax⟩
      · show (ledger.held.rdrop count).map UInt8.toNat = List.range (stack.live - count)
        rw [List.rdrop, List.map_take, hheld, hlength, List.take_range,
          Nat.min_eq_left (Nat.sub_le _ _)]
      · show stack.live - count + (ledger.freed + count) = ledger.taken
        omega
  | other hallocate hfree =>
      have hsame : ledger.record call (.ok none) = ledger := by
        cases call with
        | free count => exact absurd rfl (hfree count)
        | _ => rfl
      rw [hsame]
      exact ⟨hheld, htaken, hlive, hmax⟩

end Change

variable (name : String) (location : SourceLocation) (calls : List BuilderCall)

theorem balanced_history :
    Balanced (history name location calls).1.registers (history name location calls).2 := by
  induction calls using List.reverseRecOn with
  | nil => exact ⟨rfl, rfl, le_rfl, Nat.zero_le _⟩
  | append_singleton calls call ih =>
      rw [history_concat]
      exact (serve_change _ call).balanced ih

/-- After calls `maxUsed` is the largest number of registers that were in use after some of them. -/
theorem isGreatest_maxUsed :
    IsGreatest {count | ∃ earlier, earlier <+: calls ∧
        (history name location earlier).1.registers.live = count}
      (history name location calls).1.registers.maxUsed := by
  induction calls using List.reverseRecOn with
  | nil =>
      refine ⟨⟨[], List.prefix_rfl, rfl⟩, ?_⟩
      rintro count ⟨earlier, hprefix, rfl⟩
      rw [List.prefix_nil.mp hprefix]
      exact le_rfl
  | append_singleton calls call ih =>
      have hmax : (history name location (calls ++ [call])).1.registers.maxUsed
          = max (history name location calls).1.registers.maxUsed
            (history name location (calls ++ [call])).1.registers.live := by
        rw [history_concat]
        exact (serve_change _ call).maxUsed_eq (balanced_history name location calls).live_le
      rw [hmax]
      constructor
      · rcases max_choice (history name location calls).1.registers.maxUsed
          (history name location (calls ++ [call])).1.registers.live with hold | hnew
        · rw [hold]
          obtain ⟨earlier, hprefix, hlive⟩ := ih.1
          exact ⟨earlier, hprefix.trans (List.prefix_append calls [call]), hlive⟩
        · rw [hnew]
          exact ⟨calls ++ [call], List.prefix_rfl, rfl⟩
      · rintro count ⟨earlier, hprefix, rfl⟩
        rcases List.prefix_concat_iff.mp hprefix with rfl | hprefix
        · exact Nat.le_max_right _ _
        · exact (ih.2 ⟨earlier, hprefix, rfl⟩).trans (Nat.le_max_left _ _)

/-- A function's window has room for its registers and for its parameters. -/
theorem finalize_registerCount {builder : FunctionBuilder}
    (h : builder.registers.maxUsed ≤ registerCapacity) :
    builder.finalize.registerCount.toNat
      = max builder.registers.maxUsed builder.paramCount.toNat := by
  have hlt : builder.registers.maxUsed < UInt16.size := Nat.lt_of_le_of_lt h (by decide)
  have hmax := UInt16.toNat_max (UInt16.ofNat builder.registers.maxUsed) builder.paramCount
  rwa [UInt16.toNat_ofNat_of_lt' hlt] at hmax

/-- **Registers are handed out as a stack.**  Let any calls be made on a new builder.  As many registers
are in use as were taken and not given back, the largest number that was in use after some of the
calls is `maxUsed`, and it is 256 at most.  One more is handed out exactly if fewer than 256 are in
use, and its number is the number of those; so the client holds the registers from zero up, each once.
As many can be given back as are in use.  A call that fails changes nothing, and the finished function
has room for the registers and for its parameters. -/
theorem allocation_invariant (name : String) (location : SourceLocation)
    (calls : List BuilderCall) :
    let builder := (history name location calls).1
    let ledger := (history name location calls).2
    let live := builder.registers.live
    live + ledger.freed = ledger.taken ∧
    live ≤ builder.registers.maxUsed ∧ builder.registers.maxUsed ≤ 256 ∧
    IsGreatest {count | ∃ earlier, earlier <+: calls ∧
        (history name location earlier).1.registers.live = count} builder.registers.maxUsed ∧
    ((∃ register, builder.allocateRegister.1 = .ok register) ↔ live < 256) ∧
    (∀ register, builder.allocateRegister.1 = .ok register → register.toNat = live) ∧
    ledger.held.map UInt8.toNat = List.range live ∧
    (∀ count, (builder.freeRegisters count).1 = .ok () ↔ count ≤ live) ∧
    (∀ call error, (builder.serve call).1 = .error error → (builder.serve call).2 = builder) ∧
    builder.finalize.registerCount.toNat
      = max builder.registers.maxUsed builder.paramCount.toNat := by
  intro builder ledger live
  have hbalanced : Balanced builder.registers ledger := balanced_history name location calls
  refine ⟨hbalanced.taken, hbalanced.live_le, hbalanced.maxUsed_le,
    isGreatest_maxUsed name location calls, ⟨?_, fun hroom => ?_⟩,
    fun _ h => (allocateRegister_eq_ok.mp h).2, hbalanced.held, fun _ => freeRegisters_eq_ok,
    fun _ _ => serve_of_error, finalize_registerCount hbalanced.maxUsed_le⟩
  · rintro ⟨register, h⟩
    exact (allocateRegister_eq_ok.mp h).1
  · exact ⟨UInt8.ofNat live,
      allocateRegister_eq_ok.mpr ⟨hroom, UInt8.toNat_ofNat_of_lt' hroom⟩⟩

-- A free of too many registers fails; then one is given back and handed out once more.
example :
    (history "main" ⟨"", 0⟩ [.allocate, .allocate, .free 3, .free 1, .allocate]).2
      = ⟨[0, 1], 3, 1⟩ := by
  decide

-- The last register has the number 255, and there is no other.
example :
    (history "main" ⟨"", 0⟩ (.replicate 257 .allocate)).1.registers = ⟨256, 256⟩ := by
  decide +kernel

end FunctionBuilder

end RegisterMachine
