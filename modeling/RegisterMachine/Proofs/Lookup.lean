import Mathlib
import RegisterMachine.Proofs.Persistence

/-!
# Functions by name

A function is looked up by its name, and the answer is its place in sixteen bits.  A program that is
built function by function has no more functions than sixteen bits can tell apart, but a stored
program may have up to 16,000,000, and loading does not refuse it.  So an answer "there is none" is
always right (`functionIndex?_eq_none_iff`), and an answer that names a place is right exactly if the
name stands among the first 65536 functions (`findsByName_iff`).  Of a name that stands only beyond
them the lookup tells the place of some other function (`lookup_wraps_around`).
-/

namespace RegisterMachine.Program

/-- What looking a name up must tell: the first function with this name, or that there is none. -/
structure FindsByName (p : Program) (name : String) : Prop where
  found : ∀ index, p.functionIndex? name = some index →
    ∃ f, p.function? index = some f ∧ f.name = name ∧
      ∀ i < index.toNat, ∀ g, p.functions[i]? = some g → g.name ≠ name
  missing : p.functionIndex? name = none → ∀ f ∈ p.functions, f.name ≠ name

variable {p : Program} {name : String}

/-- The lookup finds no name that no function has, and misses no other. -/
theorem functionIndex?_eq_none_iff :
    p.functionIndex? name = none ↔ ∀ f ∈ p.functions, f.name ≠ name := by
  rw [functionIndex?, Option.map_eq_none_iff, Array.findIdx?_eq_none_iff]
  simp

/-- A name that is found has a first place, and its lowest sixteen bits are told. -/
theorem exists_first_of_functionIndex? {index : UInt16} (h : p.functionIndex? name = some index) :
    ∃ k f, index = UInt16.ofNat k ∧ p.functions[k]? = some f ∧ f.name = name ∧
      ∀ i < k, ∀ g, p.functions[i]? = some g → g.name ≠ name := by
  obtain ⟨k, hk, rfl⟩ := Option.map_eq_some_iff.mp h
  obtain ⟨hlt, hname, hfirst⟩ := Array.findIdx?_eq_some_iff_getElem.mp hk
  refine ⟨k, p.functions[k], rfl, Array.getElem?_eq_getElem hlt, by simpa using hname, ?_⟩
  intro i hi g hg
  obtain ⟨-, rfl⟩ := Array.getElem?_eq_some_iff.mp hg
  simpa using hfirst i hi

/-- Some function among those that sixteen bits reach has the name. -/
def Reaches (p : Program) (name : String) : Prop :=
  ∃ i < 65536, ∃ f, p.functions[i]? = some f ∧ f.name = name

/-- Looking a name up is right exactly if the name, where it stands at all, stands among the
functions that sixteen bits reach. -/
theorem findsByName_iff (p : Program) (name : String) :
    p.FindsByName name ↔ ((∃ f ∈ p.functions, f.name = name) → p.Reaches name) := by
  constructor
  · rintro h ⟨f, hf, hname⟩
    cases hindex : p.functionIndex? name with
    | none => exact absurd hname (h.missing hindex f hf)
    | some index =>
        obtain ⟨g, hg, hgname, -⟩ := h.found index hindex
        exact ⟨index.toNat, index.toNat_lt, g, hg, hgname⟩
  · intro h
    refine ⟨fun index hindex => ?_, functionIndex?_eq_none_iff.mp⟩
    obtain ⟨k, f, rfl, hf, hname, hfirst⟩ := exists_first_of_functionIndex? hindex
    obtain ⟨i, hi, g, hg, hgname⟩ := h ⟨f, Array.mem_of_getElem? hf, hname⟩
    -- the first place of the name is not after any other
    have hk : k ≤ i := Nat.le_of_not_lt fun hlt => hfirst i hlt g hg hgname
    have htoNat : (UInt16.ofNat k).toNat = k := UInt16.toNat_ofNat_of_lt (hk.trans_lt hi)
    refine ⟨f, ?_, hname, ?_⟩
    · rw [function?, htoNat, hf]
    · rwa [htoNat]

/-! ## Programs with any history -/

/-- An edit that does not load a program with more functions than sixteen bits tell apart. -/
def Edit.Narrow : Edit → Prop
  | .load input => ∀ q, ofBytes input = .ok q → q.functions.size ≤ maxTableLength
  | _ => True

theorem size_addFunction_le (h : p.functions.size ≤ maxTableLength) (function : Function) :
    (p.addFunction function).2.functions.size ≤ maxTableLength := by
  rw [addFunction]
  by_cases hfull : maxTableLength ≤ p.functions.size
  · rw [if_pos hfull]
    exact h
  · rw [if_neg hfull, Array.size_push]
    exact Nat.lt_of_not_le hfull

/-- Only loading can give a program more functions than sixteen bits tell apart. -/
theorem size_edit_le (hsound : p.Sound) (h : p.functions.size ≤ maxTableLength) {e : Edit}
    (he : e.Narrow) : (p.edit e).functions.size ≤ maxTableLength := by
  cases e with
  | addFunction function => exact size_addFunction_le h function
  | load input =>
      rw [edit, loaded]
      cases hload : ofBytes input with
      | error error => exact h
      | ok q => exact he q hload
  | reload =>
      rw [edit, loaded]
      cases hload : ofBytes p.toBytes with
      | error error => exact h
      | ok q =>
          obtain ⟨rfl, -⟩ := hsound.eq_of_ofBytes hload
          exact h
  | _ => exact h

theorem size_history_le (edits : List Edit) :
    ∀ {p : Program}, p.Sound → p.functions.size ≤ maxTableLength → (∀ e ∈ edits, e.Narrow) →
      (edits.foldl edit p).functions.size ≤ maxTableLength := by
  induction edits with
  | nil => intro p _ h _; exact h
  | cons e rest ih =>
      intro p hsound h hedits
      obtain ⟨he, hrest⟩ := List.forall_mem_cons.mp hedits
      exact ih (hsound.edit e) (size_edit_le hsound h he) hrest

/-- Sixteen bits reach every function of a program that has no more than they tell apart. -/
theorem reaches_of_size_le (h : p.functions.size ≤ maxTableLength)
    (hname : ∃ f ∈ p.functions, f.name = name) : p.Reaches name := by
  obtain ⟨f, hf, hname⟩ := hname
  obtain ⟨i, hi, rfl⟩ := Array.getElem_of_mem hf
  exact ⟨i, hi.trans_le h, _, Array.getElem?_eq_getElem hi, hname⟩

/-- **Lookup by name.**  Of a program with any history, "there is none" is told exactly of the names
that no function has.  What is told of a name is right, also where it is a place, exactly if the name
stands among the first 65536 functions or nowhere; this is so for all names if no program with more
functions was ever loaded. -/
theorem lookup_by_name (edits : List Edit) :
    let p := edits.foldl Program.edit Program.empty
    (∀ name, p.functionIndex? name = none ↔ ∀ f ∈ p.functions, f.name ≠ name) ∧
    (∀ name, p.FindsByName name ↔ ((∃ f ∈ p.functions, f.name = name) → p.Reaches name)) ∧
    ((∀ e ∈ edits, e.Narrow) → ∀ name, p.FindsByName name) := by
  intro p
  refine ⟨fun _ => functionIndex?_eq_none_iff, findsByName_iff p, fun hedits name => ?_⟩
  have hsize := size_history_le edits Sound.empty (Nat.zero_le _) hedits
  exact (findsByName_iff p name).mpr (reaches_of_size_le hsize)

/-- A function that does nothing. -/
def idle (name : String) : Function := ⟨name, ⟨"", 0⟩, 0, 0, 0, #[]⟩

/-- Two functions of one name, one of them read from a stored program: the first is found. -/
theorem lookup_by_name_twins :
    let p := [Edit.addFunction (idle "f"), .reload, .addFunction (idle "f")].foldl Program.edit
      Program.empty
    p.FindsByName "f" ∧ p.FindsByName "g" := by
  have hedits : ∀ e ∈ [Edit.addFunction (idle "f"), .reload, .addFunction (idle "f")],
      e.Narrow := by
    simp [Edit.Narrow]
  have hfinds := (lookup_by_name _).2.2 hedits
  exact ⟨hfinds "f", hfinds "g"⟩

/-! ## A name beyond sixteen bits -/

/-- A program with 65536 functions without a name, and one more. -/
def wideProgram : Program :=
  { Program.empty with functions := (Array.replicate 65536 (idle "")).push (idle "f") }

theorem ofBytes_wideProgram : ofBytes wideProgram.toBytes = .ok wideProgram := by
  have hsize : wideProgram.functions.size = 65537 := by
    rw [wideProgram, Array.size_push, Array.size_replicate]
  refine ofBytes_toBytes ⟨?_, .empty, .empty, .empty, .empty, .empty⟩ ⟨?_, ?_⟩ (.inr ?_)
  · rw [hsize]
    decide
  · intro f hf
    rcases Array.mem_push.mp hf with hf | rfl
    · rw [(Array.mem_replicate.mp hf).2]
      exact ⟨by decide, by decide, by decide⟩
    · exact ⟨by decide, by decide, by decide⟩
  · exact fun _ h => absurd h (Array.not_mem_empty _)
  · rw [hsize]
    decide

theorem functionIndex?_wideProgram : wideProgram.functionIndex? "f" = some 0 := by
  have hnone : (Array.replicate 65536 (idle "")).findIdx? (·.name == "f") = none := by
    refine Array.findIdx?_eq_none_iff.mpr fun f hf => ?_
    rw [(Array.mem_replicate.mp hf).2]
    decide
  rw [functionIndex?, wideProgram, Array.findIdx?_push, hnone, Array.size_replicate]
  rfl

/-- The name of the last function is found at the place of the first, which has no name. -/
theorem lookup_wraps_around :
    let p := Program.empty.edit (.load wideProgram.toBytes)
    p.functionIndex? "f" = some 0 ∧ (p.function? 0).map (·.name) = some "" ∧
    ¬ p.FindsByName "f" := by
  intro p
  have hp : p = wideProgram := by
    rw [show p = Program.empty.loaded wideProgram.toBytes from rfl, loaded, ofBytes_wideProgram]
  have hindex : p.functionIndex? "f" = some 0 := hp ▸ functionIndex?_wideProgram
  have hfirst : (p.function? 0).map (·.name) = some "" := by
    have hlt : 0 < (Array.replicate 65536 (idle "")).size := by
      rw [Array.size_replicate]
      decide
    rw [hp, function?, wideProgram, UInt16.toNat_zero, Array.getElem?_push_lt hlt,
      Array.getElem_replicate]
    rfl
  refine ⟨hindex, hfirst, fun h => ?_⟩
  obtain ⟨f, hf, hname, -⟩ := h.found 0 hindex
  rw [hf, Option.map_some, hname] at hfirst
  exact absurd hfirst (by decide)

end RegisterMachine.Program
