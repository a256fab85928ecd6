import Mathlib
import RegisterMachine.Command.World
import RegisterMachine.Proofs.Plan

/-!
# Laws of the world

What a command can rely on in a world: what was written to a file is read back from it by the same
path (`read_of_write`), and to write to the two streams changes nothing that is read.

The first is not immediate, since a path is followed name by name and the file that is written may
be new or old.  But whatever lies on the way is a directory, and what was written is not, so the way
is the same before and after (`follow_setFile`).
-/

namespace RegisterMachine

namespace World

variable {w : World}

/-! ## Files -/

theorem lookup_filter_ne {place other : List String} (h : other ≠ place)
    (files : List (List String × List UInt8)) :
    (files.filter (·.1 ≠ place)).lookup other = files.lookup other := by
  induction files with
  | nil => rfl
  | cons file files ih =>
      obtain ⟨here, bytes⟩ := file
      by_cases hhere : here = place
      · have hother : (other == here) = false := beq_false_of_ne (hhere ▸ h)
        rw [List.filter_cons_of_neg (by simp [hhere]), List.lookup_cons, hother, ih]
      · rw [List.filter_cons_of_pos (by simp [hhere]), List.lookup_cons, List.lookup_cons, ih]

theorem entry_setFile_self (place : List String) (bytes : List UInt8) :
    (w.setFile place bytes).entry place = .file bytes := by
  simp [entry, setFile]

theorem entry_setFile_of_ne {place other : List String} (h : other ≠ place) (bytes : List UInt8) :
    (w.setFile place bytes).entry other = w.entry other := by
  have hlookup : (w.setFile place bytes).files.lookup other = w.files.lookup other := by
    have hother : (other == place) = false := beq_false_of_ne h
    simp only [setFile, List.lookup_cons, hother, lookup_filter_ne h]
  rw [entry, entry, hlookup]
  cases w.files.lookup other <;> rfl

theorem needDirectory_eq_ok {place : List String} :
    w.needDirectory place = .ok () ↔ w.entry place = .directory := by
  rw [needDirectory]
  cases w.entry place <;> simp

/-- A way is the same after a file was written where no directory is. -/
theorem follow_setFile {place target : List String} (hplace : w.entry place ≠ .directory)
    (bytes : List UInt8) (names : List String) :
    ∀ {here}, w.follow here names = .ok target →
      (w.setFile place bytes).follow here names = .ok target := by
  induction names with
  | nil => intro here h; exact h
  | cons name names ih =>
      intro here h
      obtain ⟨⟨⟩, hd, h⟩ := bind_eq_ok.mp h
      have hne : here ≠ place := by
        rintro rfl
        exact hplace (needDirectory_eq_ok.mp hd)
      have hd' : (w.setFile place bytes).needDirectory here = .ok () := by
        rw [needDirectory_eq_ok, entry_setFile_of_ne hne]
        exact needDirectory_eq_ok.mp hd
      rw [follow, hd']
      by_cases hlong : longestName < name.utf8ByteSize
      · simp only [if_pos hlong] at h
        cases h
      · simp only [if_neg hlong] at h ⊢
        exact ih h

/-- A file is written where its path leads, if no directory is there. -/
theorem write_eq_ok {w' : World} {path : String} {bytes : List UInt8} :
    w.write path bytes = .ok w' ↔
    ∃ place, w.resolve path = .ok place ∧ demandsDirectory path = false ∧
      w.entry place ≠ .directory ∧ w' = w.setFile place bytes := by
  constructor
  · intro h
    obtain ⟨way, hroute, h⟩ := bind_eq_ok.mp h
    by_cases hd : demandsDirectory path = true
    · simp only [if_pos hd] at h
      obtain ⟨place, -, h⟩ := bind_eq_ok.mp h
      obtain ⟨_, -, h⟩ := bind_eq_ok.mp h
      cases h
    · simp only [if_neg hd] at h
      obtain ⟨place, hplace, h⟩ := bind_eq_ok.mp h
      have hresolve : w.resolve path = .ok place := by
        rw [resolve, hroute]
        exact hplace
      refine ⟨place, hresolve, Bool.eq_false_iff.mpr hd, ?_⟩
      cases he : w.entry place with
      | directory =>
          simp only [he] at h
          cases h
      | file | nothing =>
          simp only [he] at h
          cases h
          exact ⟨Entry.noConfusion, rfl⟩
  · rintro ⟨place, hresolve, hd, hentry, rfl⟩
    obtain ⟨way, hroute, hplace⟩ := bind_eq_ok.mp hresolve
    have hd : ¬ demandsDirectory path = true := Bool.eq_false_iff.mp hd
    rw [write, hroute]
    simp only [bind, Except.bind, if_neg hd, hplace]
    cases he : w.entry place with
    | directory => exact absurd he hentry
    | file | nothing => rfl

/-- What was written to a file is read back from it. -/
theorem read_of_write {w' : World} {path : String} {bytes : List UInt8}
    (h : w.write path bytes = .ok w') : w'.read path = .ok bytes := by
  obtain ⟨place, hplace, hd, hentry, rfl⟩ := write_eq_ok.mp h
  obtain ⟨way, hroute, hfollow⟩ := bind_eq_ok.mp hplace
  have hplace' : (w.setFile place bytes).resolve path = .ok place := by
    rw [resolve, hroute]
    exact follow_setFile hentry bytes way.2 hfollow
  rw [read, hplace']
  simp only [bind, Except.bind, entry_setFile_self, hd]
  rfl

/-! ## Streams -/

/-- The world after something was written to its two streams. -/
def written (w : World) (out err : String) : World :=
  { w with out := w.out ++ out, err := w.err ++ err }

theorem written_written (out err out' err' : String) :
    (w.written out err).written out' err' = w.written (out ++ out') (err ++ err') := by
  simp only [written, String.append_assoc]

theorem written_empty : w.written "" "" = w := by
  simp only [written, String.append_empty]

theorem follow_written (out err : String) (names : List String) :
    ∀ here, (w.written out err).follow here names = w.follow here names := by
  induction names with
  | nil => intro here; rfl
  | cons name names ih =>
      intro here
      rw [follow, follow]
      simp only [ih]
      rfl

theorem resolve_written (out err path : String) :
    (w.written out err).resolve path = w.resolve path := by
  rw [resolve, resolve]
  simp only [follow_written]

theorem read_written (out err path : String) : (w.written out err).read path = w.read path := by
  rw [read, read, resolve_written]
  rfl

theorem leadsSomewhere_written (out err path : String) :
    (w.written out err).leadsSomewhere path = w.leadsSomewhere path := by
  rw [leadsSomewhere, leadsSomewhere, resolve_written]
  rfl

theorem write_written {w' : World} {path : String} {bytes : List UInt8}
    (h : w.write path bytes = .ok w') (out err : String) :
    (w.written out err).write path bytes = .ok (w'.written out err) := by
  obtain ⟨place, hplace, hd, hentry, rfl⟩ := write_eq_ok.mp h
  exact write_eq_ok.mpr ⟨place, (resolve_written out err path).trans hplace, hd, hentry, rfl⟩

end World

/-! ## Actions -/

theorem run_bind_of_run {α β : Type} {x : InWorld α} {f : α → InWorld β} {w w' : World} {a : α}
    (hx : x.run w = (a, w')) : (x >>= f).run w = (f a).run w' := by
  rw [StateT.run_bind, hx]
  rfl

theorem run_lookup (name : String) (w : World) :
    (Console.lookup name : InWorld _).run w = (w.environment.lookup name, w) := rfl

theorem run_readFile (path : String) (w : World) :
    (Console.readFile path : InWorld _).run w = (w.read path, w) := rfl

theorem run_pathExists (path : String) (w : World) :
    (Console.pathExists path : InWorld _).run w = (w.leadsSomewhere path, w) := rfl

theorem run_writeFile {path : String} {bytes : List UInt8} {w w' : World}
    (h : w.write path bytes = .ok w') :
    (Console.writeFile path bytes : InWorld _).run w = (.ok (), w') := by
  have hget : (get : InWorld World).run w = (w, w) := rfl
  refine (run_bind_of_run hget).trans ?_
  simp only [h]
  rfl

/-- In every world the action has the same result and writes the same, and does nothing else. -/
def Prints {α : Type} (x : InWorld α) : Prop :=
  ∃ a out err, ∀ w : World, x.run w = (a, w.written out err)

namespace Prints

variable {α β : Type}

theorem pure (a : α) : Prints (pure a : InWorld α) :=
  ⟨a, "", "", fun _ => congrArg (Prod.mk a) World.written_empty.symm⟩

theorem bind {x : InWorld α} {f : α → InWorld β} (hx : Prints x) (hf : ∀ a, Prints (f a)) :
    Prints (x >>= f) := by
  obtain ⟨a, out, err, hx⟩ := hx
  obtain ⟨b, out', err', hf⟩ := hf a
  refine ⟨b, out ++ out', err ++ err', fun w => ?_⟩
  rw [run_bind_of_run (hx w), hf, World.written_written]

theorem out (text : String) : Prints (Console.out text : InWorld Unit) := by
  refine ⟨(), text, "", fun w => ?_⟩
  rw [World.written, String.append_empty]
  rfl

theorem err (text : String) : Prints (Console.err text : InWorld Unit) := by
  refine ⟨(), "", text, fun w => ?_⟩
  rw [World.written, String.append_empty]
  rfl

theorem outLine (line : String) : Prints (Console.outLine line : InWorld Unit) := out _

theorem log (threshold level : Level) (message : String) :
    Prints (Console.log threshold level message : InWorld Unit) := by
  refine bind (x := (Console.logStyle : InWorld LogStyle)) (pure _) fun style => ?_
  by_cases hline : logLine style threshold level message ≠ ""
  · simp only [if_pos hline]
    exact err _
  · simp only [if_neg hline]
    exact pure ()

theorem forIn (xs : List α) {f : α → β → InWorld (ForInStep β)} (hf : ∀ a b, Prints (f a b)) :
    ∀ b, Prints (forIn xs b f) := by
  induction xs with
  | nil => intro b; exact pure b
  | cons a xs ih =>
      intro b
      rw [List.forIn_cons]
      refine bind (hf a b) fun next => ?_
      cases next with
      | done b => exact pure b
      | yield b => exact ih b

end Prints

/-! ## Actions in two worlds -/

/-- Each in its world, the actions have the same result, write the same and do nothing else. -/
def RunAlike {α : Type} (x : InWorld α) (w : World) (y : InWorld α) (v : World) : Prop :=
  ∃ a out err, x.run w = (a, w.written out err) ∧ y.run v = (a, v.written out err)

theorem Prints.runAlike {α : Type} {x : InWorld α} (h : Prints x) (w v : World) :
    RunAlike x w x v := by
  obtain ⟨a, out, err, h⟩ := h
  exact ⟨a, out, err, h w, h v⟩

/-- Actions that come to the same in both worlds. -/
theorem RunAlike.of_run {α : Type} {x x' y y' : InWorld α} {w v : World} {out err : String}
    (hx : x.run w = x'.run (w.written out err)) (hy : y.run v = y'.run (v.written out err))
    (h : RunAlike x' (w.written out err) y' (v.written out err)) : RunAlike x w y v := by
  obtain ⟨a, out', err', hx', hy'⟩ := h
  refine ⟨a, out ++ out', err ++ err', ?_, ?_⟩
  · rw [hx, hx', World.written_written]
  · rw [hy, hy', World.written_written]

/-! ## Actions that change a world -/

/-- The action gives `a` and makes `w'` of `w`, but for what it writes to the two streams. -/
def Leaves {α : Type} (x : InWorld α) (w : World) (a : α) (w' : World) : Prop :=
  ∃ out err, x.run w = (a, w'.written out err)

namespace Leaves

variable {α β : Type} {x : InWorld α} {f : α → InWorld β} {w w' : World} {a : α} {b : β}

theorem pure (b : β) (out err : String) :
    Leaves (pure b : InWorld β) (w'.written out err) b w' :=
  ⟨out, err, rfl⟩

theorem bind_of_run {w₁ : World} (hx : x.run w = (a, w₁)) (h : Leaves (f a) w₁ b w') :
    Leaves (x >>= f) w b w' := by
  obtain ⟨out, err, h⟩ := h
  exact ⟨out, err, (run_bind_of_run hx).trans h⟩

theorem bind_of_prints (hx : Prints x)
    (h : ∀ a out err, Leaves (f a) (w.written out err) b w') : Leaves (x >>= f) w b w' := by
  obtain ⟨a, out, err, hx⟩ := hx
  exact bind_of_run (hx w) (h a out err)

end Leaves

end RegisterMachine
