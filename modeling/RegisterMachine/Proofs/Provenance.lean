import Mathlib
import RegisterMachine.Proofs.Assembly
import RegisterMachine.Proofs.Tokens

/-!
# Where the parts of an outline come from

An outline says of its parts in which line and column they stand.  That is true:

| part                          | where it stands                                                |
|-------------------------------|----------------------------------------------------------------|
| an instruction, its operands  | at the starts of tokens of the line with its number            |
| the name of the entry         | at the start of a token                                        |
| a block, unless it is first   | in its line stands the directive that begins it                |

A text is read line by line, so `Traced` is kept by one more line (`Traced.addLine`) and holds after
any number of them (`traced_of_read`).  What stands before the directive of a block is found by
reading the text only up to there (`Begins.sectionsBefore`).
-/

namespace RegisterMachine.Assembly

/-! ## Places of tokens -/

/-- A token starts at this place of a text that is given as its lines; lines count from one. -/
def Marks (texts : List (List Char)) (line offset : Nat) : Prop :=
  ∃ k cs, line = k + 1 ∧ texts[k]? = some cs ∧ TokenAt cs offset ∧
    ∀ tokens, tokenize line cs = .ok tokens → ∃ token ∈ tokens, token.offset = offset

section Texts

variable {texts more : List (List Char)} {line offset : Nat} {cs : List Char}
  {tokens : List Token}

theorem Marks.append (h : Marks texts line offset) : Marks (texts ++ more) line offset := by
  obtain ⟨k, cs, hline, hcs, hat⟩ := h
  obtain ⟨hlt, -⟩ := List.getElem?_eq_some_iff.mp hcs
  exact ⟨k, cs, hline, by rw [List.getElem?_append_left hlt, hcs], hat⟩

theorem getElem?_length_append (texts : List (List Char)) (cs : List Char)
    (more : List (List Char)) : (texts ++ cs :: more)[texts.length]? = some cs := by
  simp

/-- The tokens of a line start where the line is marked. -/
theorem marks_of_tokenize (h : tokenize (texts.length + 1) cs = .ok tokens) {token : Token}
    (htoken : token ∈ tokens) : Marks (texts ++ cs :: more) (texts.length + 1) token.offset := by
  refine ⟨texts.length, cs, rfl, getElem?_length_append texts cs more,
    tokenAt_of_tokenize h token htoken, fun others hothers => ⟨token, ?_, rfl⟩⟩
  rw [h] at hothers
  cases hothers
  exact htoken

end Texts

/-! ## One more line -/

namespace Outline

variable {outline next : Outline} {texts : List (List Char)} {cs : List Char}

theorem read_concat (texts : List (List Char)) (cs : List Char) :
    read (texts ++ [cs]) = read texts >>= fun outline => outline.addLine (texts.length + 1) cs := by
  rw [read, List.zipIdx_append, List.foldlM_append, Nat.add_comm 1]
  refine congrArg (read texts >>= ·) (funext fun outline => ?_)
  rw [List.zipIdx_singleton, List.foldlM_cons]
  exact bind_pure _

/-- Names and lines of the blocks. -/
def heads (outline : Outline) : List (String × Nat) :=
  outline.blocks.toList.map fun block => (block.name, block.line)

/-- A directive of the text begins a block with this name and line, after blocks with the names and
lines in `before`. -/
def Begins (texts : List (List Char)) (before : List (String × Nat)) (head : String × Nat) :
    Prop :=
  ∃ earlier cs later outline tokens name rest, texts = earlier ++ cs :: later ∧
    head = (name.text, earlier.length + 1) ∧ tokenize head.2 cs = .ok tokens ∧
    arguments? ".func" tokens = some (name :: rest) ∧ read (earlier ++ [cs]) = .ok outline ∧
    outline.heads = before ++ [head]

theorem Begins.append {before : List (String × Nat)} {head : String × Nat}
    (h : Begins texts before head) (more : List (List Char)) :
    Begins (texts ++ more) before head := by
  obtain ⟨earlier, cs, later, outline, tokens, name, rest, rfl, hrest⟩ := h
  exact ⟨earlier, cs, later ++ more, outline, tokens, name, rest, by simp, hrest⟩

/-- What an outline holds comes from the text: the tokens of its instructions and of the entry start
where they are said to, and all blocks but the first begin with a directive in the line that they
name. -/
structure Traced (texts : List (List Char)) (outline : Outline) : Prop where
  lines : ∀ block ∈ outline.blocks, ∀ source ∈ block.lines,
    ∀ token ∈ source.mnemonic :: source.operands, Marks texts source.number token.offset
  entry : ∀ entry, outline.entry = some entry → Marks texts entry.line entry.offset
  heads : ∀ before head after, outline.heads = before ++ head :: after → before ≠ [] →
    Begins texts before head

theorem mem_blocks {block : Block} :
    block ∈ outline.blocks ↔ block ∈ outline.finished ∨ block = outline.current := by
  rw [blocks, Array.mem_push]

/-- The blocks before a new one are among those that were there. -/
theorem heads_beginBlock (outline : Outline) (block : Block) :
    ∃ kept dropped, outline.heads = kept ++ dropped ∧
      (outline.beginBlock block).heads = kept ++ [(block.name, block.line)] := by
  cases hempty : outline.implicit && outline.current.isEmpty with
  | true =>
      refine ⟨outline.finished.toList.map fun block => (block.name, block.line),
        [(outline.current.name, outline.current.line)], ?_, ?_⟩ <;>
        simp [Outline.heads, blocks, beginBlock, hempty]
  | false =>
      refine ⟨outline.heads, [], (List.append_nil _).symm, ?_⟩
      simp [Outline.heads, blocks, beginBlock, hempty]

theorem mem_blocks_beginBlock {new block : Block} (h : block ∈ (outline.beginBlock new).blocks) :
    block ∈ outline.blocks ∨ block = new := by
  rcases mem_blocks.mp h with h | rfl
  · refine .inl ?_
    rw [beginBlock] at h
    simp only at h
    split at h
    · exact mem_blocks.mpr (.inl h)
    · exact h
  · exact .inr rfl

namespace Traced

theorem start : Traced [] start where
  lines block hblock source hsource := by
    rcases mem_blocks.mp hblock with hblock | rfl
    · exact absurd hblock (Array.not_mem_empty _)
    · exact absurd hsource (Array.not_mem_empty _)
  entry entry h := by cases h
  heads before head after h hbefore := by
    have hlength : 1 = before.length + (after.length + 1) := by
      simpa [Outline.heads, blocks, Outline.start] using congrArg List.length h
    have hpos := List.length_pos_iff.mpr hbefore
    omega

/-- A line that begins a block. -/
theorem beginBlock (h : Traced texts outline) {tokens : List Token} {name : Token}
    {rest : List Token} {paramCount : UInt16}
    (htokens : tokenize (texts.length + 1) cs = .ok tokens)
    (hfunc : arguments? ".func" tokens = some (name :: rest))
    (hnext : read (texts ++ [cs])
      = .ok (outline.beginBlock (.new name.text paramCount (texts.length + 1)))) :
    Traced (texts ++ [cs]) (outline.beginBlock (.new name.text paramCount (texts.length + 1))) := by
  refine ⟨fun block hblock source hsource => ?_, fun entry he => (h.entry entry he).append, ?_⟩
  · rcases mem_blocks_beginBlock hblock with hblock | rfl
    · exact fun token ht => (h.lines block hblock source hsource token ht).append
    · exact absurd hsource (Array.not_mem_empty _)
  · intro before head after hheads hbefore
    obtain ⟨kept, dropped, hold, hnew⟩ :=
      heads_beginBlock outline (.new name.text paramCount (texts.length + 1))
    rcases List.eq_nil_or_concat after with rfl | ⟨after, last, rfl⟩
    · -- the new block
      obtain ⟨rfl, hhead⟩ := List.append_inj' (hheads.symm.trans hnew) rfl
      obtain rfl := List.singleton_inj.mp hhead
      exact ⟨texts, cs, [], _, tokens, name, rest, rfl, rfl, htokens, hfunc, hnext, hheads⟩
    · -- a block that was there
      rw [List.concat_eq_append, ← List.cons_append, ← List.append_assoc] at hheads
      obtain ⟨hkept, -⟩ := List.append_inj' (hheads.symm.trans hnew) rfl
      refine (h.heads before head (after ++ dropped) ?_ hbefore).append [cs]
      rw [hold, ← hkept, List.append_assoc, List.cons_append]

/-- A line of the present block. -/
theorem continues (h : Traced texts outline) {tokens : List Token}
    (htokens : tokenize (texts.length + 1) cs = .ok tokens)
    (hcontinues : Continues outline (texts.length + 1) tokens next) :
    Traced (texts ++ [cs]) next := by
  have hheads : next.heads = outline.heads := by
    simp [Outline.heads, blocks, hcontinues.finished, hcontinues.name, hcontinues.startLine]
  refine ⟨fun block hblock source hsource => ?_, fun entry he => ?_, ?_⟩
  · rcases mem_blocks.mp hblock with hblock | rfl
    · rw [hcontinues.finished] at hblock
      have hlines := h.lines block (mem_blocks.mpr (.inl hblock)) source hsource
      exact fun token ht => (hlines token ht).append
    · rcases hcontinues.lines source hsource with hold | hfrom
      · have hlines := h.lines _ (mem_blocks.mpr (.inr rfl)) source hold
        exact fun token ht => (hlines token ht).append
      · rw [hfrom.number]
        intro token ht
        refine marks_of_tokenize htokens ?_
        rcases List.mem_cons.mp ht with rfl | ht
        · exact hfrom.mnemonic
        · exact hfrom.operands token ht
  · rcases hcontinues.entry entry he with he | ⟨hnumber, token, ht, hoffset⟩
    · exact (h.entry entry he).append
    · rw [hnumber, ← hoffset]
      exact marks_of_tokenize htokens ht
  · intro before head after hsplit hbefore
    exact (h.heads before head after (hheads ▸ hsplit) hbefore).append [cs]

/-- One more line: what was traced stays so, and what is new comes from the line. -/
theorem addLine (h : Traced texts outline) (hread : read texts = .ok outline)
    (hline : outline.addLine (texts.length + 1) cs = .ok next) : Traced (texts ++ [cs]) next := by
  have hnext : read (texts ++ [cs]) = .ok next := by
    rw [read_concat]
    exact bind_eq_ok.mpr ⟨outline, hread, hline⟩
  obtain ⟨tokens, htokens, hline⟩ := bind_eq_ok.mp hline
  cases addTokens_reads hline with
  | func hfunc hparams => exact h.beginBlock htokens hfunc hnext
  | line hfunc hcontinues => exact h.continues htokens hcontinues

end Traced

theorem traced_of_read {texts : List (List Char)} :
    ∀ {outline : Outline}, read texts = .ok outline → Traced texts outline := by
  induction texts using List.reverseRecOn with
  | nil =>
      intro outline h
      cases h
      exact .start
  | append_singleton texts cs ih =>
      intro outline h
      rw [read_concat] at h
      obtain ⟨middle, hread, hline⟩ := bind_eq_ok.mp h
      exact (ih hread).addLine hread hline

end Outline

/-! ## What stands before a block -/

/-- The sections before the one that the line begins. -/
def sectionsBefore (lines : List (List Token)) (line : Nat) : List Section :=
  (sections (lines.take line)).dropLast

theorem forall₂_of_mapM {α β : Type} {f : α → Option β} {as : List α} :
    ∀ {bs : List β}, as.mapM f = some bs → List.Forall₂ (fun a b => f a = some b) as bs := by
  induction as with
  | nil => intro bs h; cases h; exact .nil
  | cons a as ih =>
      intro bs h
      rw [List.mapM_cons] at h
      obtain ⟨b, hb, h⟩ := Option.bind_eq_some_iff.mp h
      obtain ⟨rest, hrest, h⟩ := Option.bind_eq_some_iff.mp h
      cases h
      exact .cons hb (ih hrest)

/-- What a text says of a block that begins with a directive: the line, and the names of the
functions before it. -/
theorem Outline.Begins.sectionsBefore {source : String} {lines : List (List Token)}
    {before : List (String × Nat)} {head : String × Nat} (hlines : tokenLines? source = some lines)
    (h : Begins (Text.lines source) before head) :
    (∃ k cs tokens name rest, head = (name.text, k + 1) ∧ (Text.lines source)[k]? = some cs ∧
      1 ≤ Text.byteLength cs ∧ lines[k]? = some tokens ∧
      arguments? ".func" tokens = some (name :: rest)) ∧
    (Assembly.sectionsBefore lines head.2).map Section.name?
      = before.map fun head => some head.1 := by
  obtain ⟨earlier, cs, later, outline, tokens, name, rest, htexts, rfl, htokens, hfunc, hread,
    hheads⟩ := h
  have hall := forall₂_of_mapM hlines
  have hcs : (Text.lines source)[earlier.length]? = some cs := by
    rw [htexts]
    exact getElem?_length_append earlier cs later
  refine ⟨⟨earlier.length, cs, tokens, name, rest, rfl, hcs, ?_, ?_, hfunc⟩, ?_⟩
  · cases tokens with
    | nil => cases hfunc
    | cons first _ =>
        have hbounds := (tokenAt_of_tokenize htokens first List.mem_cons_self).bounds
        exact hbounds.1.trans hbounds.2
  · obtain ⟨found, hfound, hsame⟩ := getElem?_of_forall₂ hall hcs
    rw [tokenize_eq_ok htokens] at hsame
    cases hsame
    exact hfound
  · -- the lines up to the directive are read alone, and its block is the last one then
    obtain ⟨first, hfirst, hrepresent⟩ := read_represents hread
    have htake : (Text.lines source).take (earlier.length + 1) = earlier ++ [cs] := by
      rw [htexts, List.take_append]
      simp
    have hsame : lines.take (earlier.length + 1) = first := by
      have hprefix := List.forall₂_take (earlier.length + 1) hall
      rw [htake] at hprefix
      refine List.right_unique_forall₂' (fun a b c hb hc => ?_) hprefix (forall₂_of_mapM hfirst)
      exact Option.some.inj (hb.symm.trans hc)
    have hmap : (sections first).map Section.name?
        = outline.heads.map fun head => some head.1 := by
      rw [Outline.heads, List.map_map, ← List.forall₂_eq_eq_eq, List.forall₂_map_left_iff,
        List.forall₂_map_right_iff]
      exact hrepresent.imp fun _ _ hs => hs.name
    rw [Assembly.sectionsBefore, hsame, List.map_dropLast, hmap, hheads, List.map_append]
    exact List.dropLast_concat

end RegisterMachine.Assembly
