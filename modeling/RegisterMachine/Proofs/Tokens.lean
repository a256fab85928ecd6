import Mathlib
import RegisterMachine.Assembly.Token

/-!
# Where tokens start

What a line says about its tokens, without regard to how it is scanned.  A place in a line is given
by the characters before it.

| at a place                  | if                                                              |
|-----------------------------|-----------------------------------------------------------------|
| one is inside quotes        | the number of quotes before it is odd                           |
| a separator divides tokens  | it stands outside quotes                                        |
| there is no comment yet     | every `#` before it stands inside quotes                        |
| a token starts              | there is no comment, the character is no separator that divides |
|                             | tokens, and such a separator or nothing stands right before it  |

The main statements are `tokenAt_of_tokenize`, that every token of a line is found where one starts,
and `tokenAt_of_error`, that a quote which is not closed is reported at the start of its token.
-/

namespace RegisterMachine

/-- Length in bytes. -/
def Text.byteLength (cs : List Char) : Nat := (String.ofList cs).utf8ByteSize

theorem Text.byteLength_append (as bs : List Char) :
    byteLength (as ++ bs) = byteLength as + byteLength bs := by
  rw [byteLength, String.ofList_append, String.utf8ByteSize_append]
  rfl

theorem Text.byteLength_singleton (c : Char) : byteLength [c] = c.utf8Size := by
  rw [byteLength, ← String.singleton_eq_ofList, String.utf8ByteSize_singleton]

namespace Assembly

/-- The characters before a place have an opening quote that they do not close. -/
def inQuotes (before : List Char) : Bool := before.count '"' % 2 == 1

/-- No comment starts among the characters before a place. -/
def Uncommented (before : List Char) : Prop :=
  ∀ p q, before = p ++ '#' :: q → inQuotes p = true

/-- The character behind `before` divides tokens. -/
def Divides (before : List Char) (c : Char) : Prop := isSeparator c = true ∧ inQuotes before = false

/-- At this place no token goes on: it is the start of the line, or right behind a separator. -/
def Gap (before : List Char) : Prop :=
  before = [] ∨ ∃ p c, before = p ++ [c] ∧ Divides p c

/-- A token starts with the character behind `before`. -/
structure StartsToken (before : List Char) (c : Char) : Prop where
  gap : Gap before
  uncommented : Uncommented (before ++ [c])
  divides : ¬ Divides before c

/-- A token of the line starts in a column, counted in bytes from one. -/
def TokenAt (cs : List Char) (offset : Nat) : Prop :=
  ∃ before c after, cs = before ++ c :: after ∧ offset = Text.byteLength before + 1 ∧
    StartsToken before c

/-- A token starts inside its line. -/
theorem TokenAt.bounds {cs : List Char} {offset : Nat} (h : TokenAt cs offset) :
    1 ≤ offset ∧ offset ≤ Text.byteLength cs := by
  obtain ⟨before, c, after, rfl, rfl, -⟩ := h
  have hpos : 0 < c.utf8Size := c.utf8Size_pos
  rw [← List.singleton_append, Text.byteLength_append, Text.byteLength_append,
    Text.byteLength_singleton]
  omega

theorem inQuotes_concat (before : List Char) (c : Char) :
    inQuotes (before ++ [c]) = (inQuotes before != (c == '"')) := by
  rw [inQuotes, inQuotes, List.count_append, List.count_singleton]
  by_cases hc : c = '"'
  · have hparity := Nat.mod_two_eq_zero_or_one (before.count '"')
    rcases hparity with h | h <;> simp [hc, Nat.add_mod, h]
  · rw [beq_false_of_ne hc]
    simp

theorem isSeparator_iff {c : Char} :
    isSeparator c = true ↔ c = ',' ∨ c = ' ' ∨ c = '\t' ∨ c = '\r' := by
  simp [isSeparator, or_assoc]

/-- A separator has one byte, and starts neither a quote nor a comment. -/
theorem isSeparator_ascii {c : Char} (h : isSeparator c = true) :
    c ≠ '#' ∧ c ≠ '"' ∧ c.val ≤ 127 ∧ c.utf8Size = 1 := by
  rcases isSeparator_iff.mp h with rfl | rfl | rfl | rfl <;> decide

theorem Uncommented.concat {before : List Char} {c : Char} (h : Uncommented before)
    (hc : c = '#' → inQuotes before = true) : Uncommented (before ++ [c]) := by
  intro p q hsplit
  rcases List.eq_nil_or_concat q with rfl | ⟨q, last, rfl⟩
  · obtain ⟨rfl, hlast⟩ := List.append_inj' hsplit rfl
    exact hc (by simpa using hlast)
  · rw [List.concat_eq_append, ← List.cons_append, ← List.append_assoc] at hsplit
    obtain ⟨hbefore, -⟩ := List.append_inj' hsplit rfl
    exact h p q hbefore

/-! ## The scanner -/

/-- `Stopped cs P result`: the scan of the line stops in a state with `P`, at the end of the line or in
front of a comment, and has this result. -/
inductive Stopped (cs : List Char)
    (P : List Char → Nat → Bool → Option OpenToken → Array Token → Prop)
    (result : Except Nat (Array Token)) : Prop
  | mk {read unread : List Char} {column : Nat} {quoted : Bool} {token : Option OpenToken}
      {done : Array Token} (line : cs = read ++ unread)
      (stop : unread = [] ∨ quoted = false ∧ ∃ comment, unread = '#' :: comment)
      (state : P read column quoted token done)
      (result_eq : result = scan column quoted token done []) : Stopped cs P result

/-- What separators and all other characters keep holds when the scan stops. -/
theorem stopped_of_scan {cs : List Char}
    {P : List Char → Nat → Bool → Option OpenToken → Array Token → Prop}
    (separator : ∀ {before rest : List Char} {c : Char} {column : Nat} {token : Option OpenToken}
      {done : Array Token}, cs = before ++ c :: rest → P before column false token done →
      isSeparator c = true → P (before ++ [c]) (column + 1) false none (closed done token))
    (extend : ∀ {before rest : List Char} {c : Char} {column : Nat} {quoted : Bool}
      {token : Option OpenToken} {done : Array Token}, cs = before ++ c :: rest →
      P before column quoted token done → (c = '#' → quoted = true) →
      (isSeparator c = true → quoted = true) →
      P (before ++ [c]) (column + c.utf8Size) (quoted != (c == '"'))
        (some (extended column c token)) done)
    (rest : List Char) :
    ∀ {before : List Char} {column : Nat} {quoted : Bool} {token : Option OpenToken}
      {done : Array Token}, cs = before ++ rest → P before column quoted token done →
      Stopped cs P (scan column quoted token done rest) := by
  induction rest with
  | nil =>
      intro before column quoted token done hcs h
      exact ⟨hcs, .inl rfl, h, rfl⟩
  | cons c rest ih =>
      intro before column quoted token done hcs h
      have hnext : cs = (before ++ [c]) ++ rest := by
        rw [hcs, List.append_assoc, List.singleton_append]
      rw [scan]
      split
      · rename_i hcomment
        obtain rfl : quoted = false := by simpa using hcomment.2
        exact ⟨hcs, .inr ⟨rfl, rest, hcomment.1 ▸ rfl⟩, h, rfl⟩
      split
      · rename_i hseparator
        obtain rfl : quoted = false := by simpa using hseparator.2
        exact ih hnext (separator hcs h hseparator.1)
      · rename_i hcomment hseparator
        refine ih hnext (extend hcs h (fun hc => ?_) fun hc => ?_)
        · by_contra hquoted
          exact hcomment ⟨hc, by simpa using hquoted⟩
        · by_contra hquoted
          exact hseparator ⟨hc, by simpa using hquoted⟩

/-- What the scanner knows of a line when it has read the characters `before`. -/
structure Scanned (cs before : List Char) (column : Nat) (quoted : Bool) (token : Option OpenToken)
    (done : Array Token) : Prop where
  column : column = Text.byteLength before + 1
  quoted : quoted = inQuotes before
  uncommented : Uncommented before
  gap : token = none → Gap before
  token : ∀ t, token = some t → TokenAt cs t.offset
  done : ∀ t ∈ done, TokenAt cs t.offset

namespace Scanned

variable {cs before rest : List Char} {c : Char} {column : Nat} {quoted : Bool}
  {token : Option OpenToken} {done : Array Token}

theorem start (cs : List Char) : Scanned cs [] 1 false none #[] where
  column := rfl
  quoted := rfl
  uncommented p q h := by cases p <;> cases h
  gap _ := .inl rfl
  token t h := by cases h
  done t h := absurd h (Array.not_mem_empty t)

theorem closed (h : Scanned cs before column quoted token done) :
    ∀ t ∈ closed done token, TokenAt cs t.offset := by
  intro t ht
  cases token with
  | none => exact h.done t ht
  | some opened =>
      rcases Array.mem_push.mp ht with ht | rfl
      · exact h.done t ht
      · exact h.token opened rfl

/-- A separator outside quotes closes the token before it. -/
theorem separator (h : Scanned cs before column false token done) (hc : isSeparator c = true) :
    Scanned cs (before ++ [c]) (column + 1) false none (Assembly.closed done token) := by
  obtain ⟨hcomment, hquote, -, hsize⟩ := isSeparator_ascii hc
  refine ⟨?_, ?_, h.uncommented.concat fun hc => absurd hc hcomment, fun _ => ?_, ?_, h.closed⟩
  · rw [h.column, Text.byteLength_append, Text.byteLength_singleton, hsize]
  · rw [inQuotes_concat, ← h.quoted, beq_false_of_ne hquote]
    rfl
  · exact .inr ⟨before, c, rfl, hc, h.quoted.symm⟩
  · intro t ht
    cases ht

/-- Any other character belongs to a token, which it may start. -/
theorem extend (h : Scanned cs before column quoted token done) (hcs : cs = before ++ c :: rest)
    (hcomment : c = '#' → quoted = true) (hdivides : isSeparator c = true → quoted = true) :
    Scanned cs (before ++ [c]) (column + c.utf8Size) (quoted != (c == '"'))
      (some (extended column c token)) done := by
  have huncommented : Uncommented (before ++ [c]) :=
    h.uncommented.concat fun hc => h.quoted ▸ hcomment hc
  refine ⟨?_, ?_, huncommented, fun hnone => ?_, ?_, h.done⟩
  · rw [h.column, Text.byteLength_append, Text.byteLength_singleton]
    omega
  · rw [inQuotes_concat, h.quoted]
  · cases hnone
  · intro t ht
    cases ht
    cases htoken : token with
    | some opened => exact h.token opened htoken
    | none =>
        refine ⟨before, c, rest, hcs, h.column, h.gap htoken, huncommented, fun hd => ?_⟩
        have hquoted := hdivides hd.1
        rw [h.quoted, hd.2] at hquoted
        cases hquoted

/-- Whatever comes out of a scan is found where a token starts: the tokens, and the one in which a
quote is not closed. -/
theorem of_scan (cs : List Char) :
    (∀ tokens, scan 1 false none #[] cs = .ok tokens → ∀ t ∈ tokens, TokenAt cs t.offset) ∧
    ∀ offset, scan 1 false none #[] cs = .error offset → TokenAt cs offset := by
  obtain ⟨-, -, h, hresult⟩ := stopped_of_scan (P := Scanned cs)
    (fun _ h hc => h.separator hc) (fun hcs h => h.extend hcs) cs (List.nil_append cs).symm
    (.start cs)
  rw [hresult]
  unfold scan
  split
  · refine ⟨fun tokens hok => ?_, fun offset herror => ?_⟩
    · cases hok
    · cases herror
      exact h.token _ rfl
  · refine ⟨fun tokens hok => ?_, fun offset herror => ?_⟩
    · cases hok
      exact h.closed
    · cases herror

end Scanned

/-- Every token of a line is found where one starts. -/
theorem tokenAt_of_tokenize {number : Nat} {cs : List Char} {tokens : List Token}
    (h : tokenize number cs = .ok tokens) : ∀ t ∈ tokens, TokenAt cs t.offset := by
  rw [tokenize] at h
  cases hscan : scan 1 false none #[] cs with
  | error offset => rw [hscan] at h; cases h
  | ok done =>
      rw [hscan] at h
      cases h
      intro t ht
      exact (Scanned.of_scan cs).1 done hscan t (Array.mem_toList_iff.mp ht)

/-- A quote that is not closed is reported at the start of its token. -/
theorem tokenAt_of_error {number : Nat} {cs : List Char} {error : Error}
    (h : tokenize number cs = .error error) :
    ∃ offset, TokenAt cs offset ∧ error
      = .parse number offset "unterminated string literal (missing closing quote)" := by
  rw [tokenize] at h
  cases hscan : scan 1 false none #[] cs with
  | error offset =>
      rw [hscan] at h
      cases h
      exact ⟨offset, (Scanned.of_scan cs).2 offset hscan, rfl⟩
  | ok done => rw [hscan] at h; cases h

end Assembly

end RegisterMachine
