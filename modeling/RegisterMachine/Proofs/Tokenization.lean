import Mathlib
import RegisterMachine.Proofs.Codec
import RegisterMachine.Proofs.Tokens

/-!
# Tokens are the runs between separators

A line says byte by byte what its tokens are.  A place is a number of bytes from the start of the
line, and what stands there is read with the quotes before it:

| name           | the place                                                                     |
|----------------|-------------------------------------------------------------------------------|
| `QuotedAt`     | has an odd number of quotes before it                                         |
| `CommentAt`    | holds a `#` and is not quoted                                                 |
| `SeparatorAt`  | holds a comma, blank, tab or carriage return and is not quoted                |
| `commentStart` | is the first one at which a comment starts, or the end of the line            |

`tokenize_exact` says that the scanner, which goes through the characters once, finds exactly the
maximal runs of bytes before the comment that hold no separator (`TokensOf`), and refuses the line
exactly if the place of the comment is quoted.

Bytes and characters meet in `separatorAt_iff` and `commentAt_iff`: the characters that matter are
written in one byte each, which stands in no other character.  The tokens that were found in a part
of a line always split that part (`Splits`), and each character that is read keeps it so.
-/

namespace RegisterMachine

/-! ## Bytes of a text -/

namespace Text

/-- The bytes of a text in UTF-8. -/
def bytes (cs : List Char) : List UInt8 := (String.ofList cs).toUTF8.toList

theorem length_bytes (cs : List Char) : (bytes cs).length = byteLength cs := length_toUTF8 _

theorem bytes_eq_flatMap (cs : List Char) : bytes cs = cs.flatMap String.utf8EncodeChar := by
  rw [bytes, toList_eq_data, String.toUTF8_eq_toByteArray, String.toByteArray_ofList,
    List.utf8Encode, List.data_toByteArray]

theorem bytes_append (as bs : List Char) : bytes (as ++ bs) = bytes as ++ bytes bs := by
  rw [bytes_eq_flatMap, bytes_eq_flatMap, bytes_eq_flatMap, List.flatMap_append]

theorem bytes_cons (c : Char) (cs : List Char) :
    bytes (c :: cs) = String.utf8EncodeChar c ++ bytes cs := by
  rw [bytes_eq_flatMap, bytes_eq_flatMap, List.flatMap_cons]

theorem byteLength_cons (c : Char) (cs : List Char) :
    byteLength (c :: cs) = c.utf8Size + byteLength cs := by
  rw [← List.singleton_append, byteLength_append, byteLength_singleton]

variable {a c : Char} {cs before after : List Char}

theorem utf8EncodeChar_of_le (ha : a.val ≤ 127) : String.utf8EncodeChar a = [a.toUInt8] := by
  rw [String.utf8EncodeChar_eq_singleton (Char.utf8Size_eq_one_iff.mpr ha), Char.toUInt8_val]

/-- In a character of several bytes none is that of a character of one byte. -/
theorem le_toNat_of_mem (hc : 127 < c.val.toNat) :
    ∀ byte ∈ String.utf8EncodeChar c, 128 ≤ byte.toNat := by
  rw [String.utf8EncodeChar, if_neg (Nat.not_le_of_lt hc)]
  split
  case' isFalse => split
  all_goals
    simp only [List.forall_mem_cons, List.not_mem_nil, IsEmpty.forall_iff, implies_true, and_true,
      UInt8.toNat_ofNat']
    omega

theorem mem_utf8EncodeChar (ha : a.val ≤ 127) : a.toUInt8 ∈ String.utf8EncodeChar c ↔ c = a := by
  have hbound : a.val.toNat ≤ 127 := UInt32.le_iff_toNat_le.mp ha
  have hbyte : a.toUInt8.toNat = a.val.toNat := by
    rw [Char.toUInt8, UInt32.toNat_toUInt8]
    omega
  constructor
  · intro h
    have hc : c.val.toNat ≤ 127 := by
      by_contra hc
      have := le_toNat_of_mem (Nat.lt_of_not_le hc) _ h
      omega
    rw [String.utf8EncodeChar, if_pos hc, List.mem_singleton, ← UInt8.toNat_inj, hbyte,
      UInt8.toNat_ofNat'] at h
    apply Char.ext
    apply UInt32.toNat_inj.mp
    omega
  · rintro rfl
    rw [utf8EncodeChar_of_le ha]
    exact List.mem_singleton_self _

/-- A character of one byte occurs as often as its byte. -/
theorem count_bytes (ha : a.val ≤ 127) (cs : List Char) :
    (bytes cs).count a.toUInt8 = cs.count a := by
  induction cs with
  | nil => rw [bytes_eq_flatMap]; rfl
  | cons c cs ih =>
      rw [bytes_cons, List.count_append, List.count_cons, ih, Nat.add_comm]
      by_cases hc : c = a
      · rw [hc, utf8EncodeChar_of_le ha]
        simp
      · rw [List.count_eq_zero.mpr fun hmem => hc ((mem_utf8EncodeChar ha).mp hmem)]
        simp [hc]

/-- Every byte belongs to a character. -/
theorem exists_char (cs : List Char) :
    ∀ {place : Nat}, place < byteLength cs → ∃ before c after, cs = before ++ c :: after ∧
      byteLength before ≤ place ∧ place < byteLength before + c.utf8Size := by
  induction cs with
  | nil =>
      intro place h
      exact absurd h (Nat.not_lt_zero place)
  | cons c cs ih =>
      intro place h
      rw [byteLength_cons] at h
      by_cases hplace : place < c.utf8Size
      · exact ⟨[], c, cs, rfl, Nat.zero_le place, by simpa [byteLength] using hplace⟩
      · have hrest : place - c.utf8Size < byteLength cs := by omega
        obtain ⟨before, d, after, rfl, hle, hlt⟩ := ih hrest
        refine ⟨c :: before, d, after, rfl, ?_, ?_⟩ <;> rw [byteLength_cons] <;> omega

/-- The byte of a character of one byte stands where the character does. -/
theorem getElem?_bytes (ha : a.val ≤ 127) {place : Nat} :
    (bytes cs)[place]? = some a.toUInt8 ↔
      ∃ before after, cs = before ++ a :: after ∧ byteLength before = place := by
  constructor
  · intro h
    have hsize : a.utf8Size = 1 := Char.utf8Size_eq_one_iff.mpr ha
    have hlt := (List.getElem?_eq_some_iff.mp h).1
    rw [length_bytes] at hlt
    obtain ⟨before, c, after, rfl, hle, hlt⟩ := exists_char cs hlt
    rw [bytes_append, List.getElem?_append_right (by rwa [length_bytes]), bytes_cons,
      List.getElem?_append_left (by rw [length_bytes, String.length_utf8EncodeChar]; omega)] at h
    obtain rfl := (mem_utf8EncodeChar ha).mp (List.mem_of_getElem? h)
    exact ⟨before, after, rfl, by omega⟩
  · rintro ⟨before, after, rfl, rfl⟩
    rw [bytes_append, List.getElem?_append_right (by rw [length_bytes]), length_bytes,
      Nat.sub_self, bytes_cons, utf8EncodeChar_of_le ha]
    rfl

end Text

namespace Assembly

open Text (byteLength)

/-! ## What stands at a place -/

/-- The place has an odd number of quotes before it. -/
def QuotedAt (bytes : List UInt8) (place : Nat) : Prop :=
  (bytes.take place).count '"'.toUInt8 % 2 = 1

instance (bytes : List UInt8) (place : Nat) : Decidable (QuotedAt bytes place) :=
  inferInstanceAs (Decidable (_ = _))

/-- A comment starts at the place. -/
def CommentAt (bytes : List UInt8) (place : Nat) : Prop :=
  bytes[place]? = some '#'.toUInt8 ∧ ¬ QuotedAt bytes place

instance (bytes : List UInt8) (place : Nat) : Decidable (CommentAt bytes place) :=
  inferInstanceAs (Decidable (_ ∧ _))

/-- A separator stands at the place, outside quotes. -/
def SeparatorAt (bytes : List UInt8) (place : Nat) : Prop :=
  (∃ c ∈ [',', ' ', '\t', '\r'], bytes[place]? = some c.toUInt8) ∧ ¬ QuotedAt bytes place

instance (bytes : List UInt8) (place : Nat) : Decidable (SeparatorAt bytes place) :=
  inferInstanceAs (Decidable (_ ∧ _))

/-- The first place at which a comment starts, or the end of the line. -/
def commentStart (bytes : List UInt8) : Nat :=
  ((List.range bytes.length).find? fun place => CommentAt bytes place).getD bytes.length

variable {cs before rest : List Char} {c : Char} {place : Nat}

theorem quotedAt_iff (before rest : List Char) :
    QuotedAt (Text.bytes (before ++ rest)) (byteLength before) ↔ inQuotes before = true := by
  rw [QuotedAt, Text.bytes_append, List.take_left' (Text.length_bytes before),
    Text.count_bytes (by decide), inQuotes, beq_iff_eq]

theorem separatorAt_iff :
    SeparatorAt (Text.bytes cs) place ↔
      ∃ before c after, cs = before ++ c :: after ∧ byteLength before = place ∧
        Divides before c := by
  have hmem : ∀ c, c ∈ [',', ' ', '\t', '\r'] ↔ isSeparator c = true := by
    intro c
    rw [isSeparator_iff]
    simp
  constructor
  · rintro ⟨⟨c, hc, hbyte⟩, hquoted⟩
    rw [hmem] at hc
    obtain ⟨-, -, hascii, -⟩ := isSeparator_ascii hc
    obtain ⟨before, after, rfl, rfl⟩ := (Text.getElem?_bytes hascii).mp hbyte
    rw [quotedAt_iff, Bool.not_eq_true] at hquoted
    exact ⟨before, c, after, rfl, rfl, hc, hquoted⟩
  · rintro ⟨before, c, after, rfl, rfl, hc, hquoted⟩
    obtain ⟨-, -, hascii, -⟩ := isSeparator_ascii hc
    refine ⟨⟨c, (hmem c).mpr hc, ?_⟩, ?_⟩
    · exact (Text.getElem?_bytes hascii).mpr ⟨before, after, rfl, rfl⟩
    · rw [quotedAt_iff, hquoted]
      exact Bool.false_ne_true

theorem commentAt_iff :
    CommentAt (Text.bytes cs) place ↔
      ∃ before after, cs = before ++ '#' :: after ∧ byteLength before = place ∧
        inQuotes before = false := by
  constructor
  · rintro ⟨hbyte, hquoted⟩
    obtain ⟨before, after, rfl, rfl⟩ := (Text.getElem?_bytes (by decide)).mp hbyte
    rw [quotedAt_iff, Bool.not_eq_true] at hquoted
    exact ⟨before, after, rfl, rfl, hquoted⟩
  · rintro ⟨before, after, rfl, rfl, hquoted⟩
    refine ⟨(Text.getElem?_bytes (by decide)).mpr ⟨before, after, rfl, rfl⟩, ?_⟩
    rw [quotedAt_iff, hquoted]
    exact Bool.false_ne_true

/-- Two characters of a line of which one starts inside the other are the same. -/
theorem eq_of_place {p q : List Char} {d : Char} (h : before ++ c :: rest = p ++ d :: q)
    (hle : byteLength before ≤ byteLength p)
    (hlt : byteLength p < byteLength before + c.utf8Size) : p = before ∧ d = c := by
  rcases List.append_eq_append_iff.mp h with ⟨more, rfl, hmore⟩ | ⟨more, rfl, hmore⟩
  · cases more with
    | nil =>
        cases hmore
        exact ⟨List.append_nil before, rfl⟩
    | cons e more =>
        cases hmore
        rw [Text.byteLength_append, Text.byteLength_cons] at hlt
        omega
  · cases more with
    | nil =>
        cases hmore
        exact ⟨(List.append_nil p).symm, rfl⟩
    | cons e more =>
        cases hmore
        have hpos := d.utf8Size_pos
        rw [Text.byteLength_append, Text.byteLength_cons] at hle
        omega

theorem commentStart_eq {bytes : List UInt8} (hnone : ∀ earlier < place, ¬ CommentAt bytes earlier)
    (hstop : place = bytes.length ∨ CommentAt bytes place) : commentStart bytes = place := by
  rw [commentStart]
  rcases hstop with rfl | hcomment
  · have hfind : (List.range bytes.length).find? (fun place => CommentAt bytes place) = none := by
      rw [List.find?_range_eq_none]
      intro earlier hlt
      simpa using hnone earlier hlt
    rw [hfind]
    rfl
  · have hlt : place < bytes.length := (List.getElem?_eq_some_iff.mp hcomment.1).1
    have hfind : (List.range bytes.length).find? (fun place => CommentAt bytes place)
        = some place := by
      rw [List.find?_range_eq_some]
      refine ⟨decide_eq_true hcomment, List.mem_range.mpr hlt, fun earlier hlt => ?_⟩
      simpa using hnone earlier hlt
    rw [hfind]
    rfl

/-- Where the scanner stops the comment starts. -/
theorem commentStart_of_stop {read unread : List Char} (huncommented : Uncommented read)
    (hstop : unread = [] ∨ inQuotes read = false ∧ ∃ comment, unread = '#' :: comment) :
    commentStart (Text.bytes (read ++ unread)) = byteLength read := by
  apply commentStart_eq
  · intro place hlt hcomment
    obtain ⟨before, after, hsplit, rfl, hquoted⟩ := commentAt_iff.mp hcomment
    rcases List.append_eq_append_iff.mp hsplit with ⟨more, rfl, -⟩ | ⟨more, hread, hmore⟩
    · rw [Text.byteLength_append] at hlt
      omega
    · cases more with
      | nil =>
          rw [hread, List.append_nil] at hlt
          omega
      | cons d more =>
          cases hmore
          rw [huncommented before more hread] at hquoted
          cases hquoted
  · rcases hstop with rfl | ⟨hquoted, comment, rfl⟩
    · exact .inl (by rw [List.append_nil, Text.length_bytes])
    · exact .inr (commentAt_iff.mpr ⟨read, comment, rfl, rfl, hquoted⟩)

/-! ## Runs -/

/-- Bytes before the comment among which there is no separator. -/
structure Unbroken (bytes : List UInt8) (start stop : Nat) : Prop where
  le_commentStart : stop ≤ commentStart bytes
  no_separator : ∀ place, start ≤ place → place < stop → ¬ SeparatorAt bytes place

/-- Such bytes, at least one, that are not part of more. -/
structure MaximalRun (bytes : List UInt8) (start stop : Nat) : Prop
    extends Unbroken bytes start stop where
  nonempty : start < stop
  maximal : ∀ start' stop', start' ≤ start → stop ≤ stop' → Unbroken bytes start' stop' →
    start' = start ∧ stop' = stop

/-- A run of the bytes before `limit`, told by its two ends. -/
structure Edged (bytes : List UInt8) (limit start stop : Nat) : Prop where
  nonempty : start < stop
  le_limit : stop ≤ limit
  no_separator : ∀ place, start ≤ place → place < stop → ¬ SeparatorAt bytes place
  left : start = 0 ∨ SeparatorAt bytes (start - 1)
  right : stop = limit ∨ SeparatorAt bytes stop

/-- The place of the first byte. -/
def Token.start (t : Token) : Nat := t.offset - 1

/-- The place behind the last byte. -/
def Token.stop (t : Token) : Nat := t.start + byteLength t.text.toList

/-- The byte at the place is one of the token. -/
def Token.Covers (t : Token) (place : Nat) : Prop := t.start ≤ place ∧ place < t.stop

instance (t : Token) (place : Nat) : Decidable (t.Covers place) :=
  inferInstanceAs (Decidable (_ ∧ _))

/-- The token is a part of the line, in its column, with these characters behind it. -/
def Token.CutFrom (t : Token) (cs after : List Char) : Prop :=
  ∃ before, cs = before ++ t.text.toList ++ after ∧ t.offset = byteLength before + 1

section Runs

variable {bytes : List UInt8} {limit start stop start' stop' : Nat}

/-- A run that has a place in common with bytes without separators holds them all. -/
theorem Edged.contains (h : Edged bytes limit start stop) (hlimit : stop' ≤ limit)
    (hfree : ∀ place, start' ≤ place → place < stop' → ¬ SeparatorAt bytes place)
    (hstart : start' < stop) (hstop : start < stop') : start ≤ start' ∧ stop' ≤ stop := by
  constructor
  · by_contra hlt
    rcases h.left with hzero | hseparator
    · omega
    · exact hfree (start - 1) (by omega) (by omega) hseparator
  · by_contra hlt
    rcases h.right with hend | hseparator
    · omega
    · exact hfree stop (by omega) (by omega) hseparator

theorem maximalRun_iff :
    MaximalRun bytes start stop ↔ Edged bytes (commentStart bytes) start stop := by
  constructor
  · intro h
    refine ⟨h.nonempty, h.le_commentStart, h.no_separator, ?_, ?_⟩
    · by_contra hleft
      obtain ⟨hzero, hfree⟩ := not_or.mp hleft
      have hmore : Unbroken bytes (start - 1) stop := by
        refine ⟨h.le_commentStart, fun place hle hlt => ?_⟩
        by_cases hplace : place = start - 1
        · exact hplace ▸ hfree
        · exact h.no_separator place (by omega) hlt
      have hsame := h.maximal _ _ (Nat.sub_le start 1) le_rfl hmore
      omega
    · by_contra hright
      obtain ⟨hend, hfree⟩ := not_or.mp hright
      have hlt : stop < commentStart bytes := lt_of_le_of_ne h.le_commentStart hend
      have hmore : Unbroken bytes start (stop + 1) := by
        refine ⟨hlt, fun place hle hlt => ?_⟩
        by_cases hplace : place = stop
        · exact hplace ▸ hfree
        · exact h.no_separator place hle (by omega)
      have hsame := h.maximal _ _ le_rfl (Nat.le_succ stop) hmore
      omega
  · intro h
    refine ⟨⟨h.le_limit, h.no_separator⟩, h.nonempty, ?_⟩
    intro start' stop' hstart hstop hmore
    have hnonempty := h.nonempty
    have hwithin := h.contains hmore.le_commentStart hmore.no_separator (by omega) (by omega)
    omega

/-! ## Tokens of a part of a line -/

/-- The tokens are the runs of the bytes before `limit`. -/
structure Splits (bytes : List UInt8) (limit : Nat) (tokens : List Token) : Prop where
  ordered : tokens.Pairwise fun s t => s.stop < t.start
  edged : ∀ t ∈ tokens, Edged bytes limit t.start t.stop
  covered : ∀ place < limit, ¬ SeparatorAt bytes place → ∃ t ∈ tokens, t.Covers place

namespace Splits

variable {tokens : List Token} {t : Token}

theorem nil (bytes : List UInt8) : Splits bytes 0 [] :=
  ⟨.nil, fun _ h => absurd h List.not_mem_nil, fun _ h => absurd h (Nat.not_lt_zero _)⟩

/-- A separator adds no token. -/
theorem separator (h : Splits bytes limit tokens) (hseparator : SeparatorAt bytes limit) :
    Splits bytes (limit + 1) tokens where
  ordered := h.ordered
  edged t ht := by
    have hedged := h.edged t ht
    refine { hedged with le_limit := Nat.le_succ_of_le hedged.le_limit, right := .inr ?_ }
    rcases hedged.right with hend | hright
    · exact hend ▸ hseparator
    · exact hright
  covered place hlt hfree := by
    have hne : place ≠ limit := fun heq => hfree (heq ▸ hseparator)
    exact h.covered place (by omega) hfree

/-- One more token, which starts where the others end. -/
theorem concat (h : Splits bytes t.start tokens) (hnonempty : t.start < t.stop)
    (hleft : t.start = 0 ∨ SeparatorAt bytes (t.start - 1))
    (hfree : ∀ place, t.start ≤ place → place < t.stop → ¬ SeparatorAt bytes place) :
    Splits bytes t.stop (tokens ++ [t]) := by
  -- No other token reaches this one: it would hold the separator in front of it.
  have hbefore : ∀ s ∈ tokens, s.stop < t.start := by
    intro s hs
    have hedged := h.edged s hs
    have hsome := hedged.nonempty
    refine lt_of_le_of_ne hedged.le_limit fun hend => ?_
    rcases hleft with hzero | hseparator
    · omega
    · exact hedged.no_separator (t.start - 1) (by omega) (by omega) hseparator
  refine ⟨?_, ?_, ?_⟩
  · rw [List.pairwise_append]
    refine ⟨h.ordered, List.pairwise_singleton _ t, fun s hs u hu => ?_⟩
    rw [List.mem_singleton.mp hu]
    exact hbefore s hs
  · intro s hs
    rcases List.mem_append.mp hs with hs | hs
    · have hedged := h.edged s hs
      have hlt := hbefore s hs
      refine { hedged with le_limit := by omega, right := .inr ?_ }
      exact hedged.right.resolve_left (by omega)
    · rw [List.mem_singleton.mp hs]
      exact ⟨hnonempty, le_rfl, hfree, hleft, .inl rfl⟩
  · intro place hlt hplace
    by_cases hle : t.start ≤ place
    · exact ⟨t, List.mem_append_right _ (List.mem_singleton_self t), hle, hlt⟩
    · obtain ⟨s, hs, hcovers⟩ := h.covered place (by omega) hplace
      exact ⟨s, List.mem_append_left _ hs, hcovers⟩

/-- Without the last token the others split what stands before it. -/
theorem init (h : Splits bytes limit (tokens ++ [t])) : Splits bytes t.start tokens := by
  have hordered := List.pairwise_append.mp h.ordered
  have hlast := h.edged t (List.mem_append_right _ (List.mem_singleton_self t))
  have hsome := hlast.nonempty
  have hle := hlast.le_limit
  refine ⟨hordered.1, fun s hs => ?_, fun place hlt hplace => ?_⟩
  · have hedged := h.edged s (List.mem_append_left _ hs)
    have hlt := hordered.2.2 s hs t (List.mem_singleton_self t)
    refine { hedged with le_limit := hlt.le, right := .inr ?_ }
    exact hedged.right.resolve_left (by omega)
  · obtain ⟨s, hs, hcovers⟩ := h.covered place (by omega) hplace
    rcases List.mem_append.mp hs with hs | hs
    · exact ⟨s, hs, hcovers⟩
    · rw [List.mem_singleton.mp hs] at hcovers
      exact absurd hcovers.1 (by omega)

theorem countP_le_one {α : Type} {p : α → Bool} {l : List α}
    (h : l.Pairwise fun a b => p a = true → p b = false) : l.countP p ≤ 1 := by
  induction h with
  | nil => exact Nat.zero_le 1
  | @cons a l hhead _ ih =>
      by_cases ha : p a = true
      · have hzero : l.countP p = 0 := List.countP_eq_zero.mpr fun b hb => by
          rw [hhead b hb ha]
          exact Bool.false_ne_true
        rw [List.countP_cons_of_pos ha, hzero]
      · rwa [List.countP_cons_of_neg ha]

/-- No byte is in two tokens, and those in none are the separators. -/
theorem countP_covers (h : Splits bytes limit tokens) (place : Nat) :
    tokens.countP (fun t => t.Covers place)
      = if place < limit ∧ ¬ SeparatorAt bytes place then 1 else 0 := by
  split
  · rename_i hplace
    obtain ⟨t, ht, hcovers⟩ := h.covered place hplace.1 hplace.2
    refine le_antisymm (countP_le_one (h.ordered.imp fun hlt hs => ?_))
      (List.countP_pos_iff.mpr ⟨t, ht, decide_eq_true hcovers⟩)
    have hs := of_decide_eq_true hs
    exact decide_eq_false fun ht => absurd (hs.2.trans (hlt.trans_le ht.1)) (lt_irrefl place)
  · rename_i hplace
    rw [List.countP_eq_zero]
    intro t ht hcovers
    have hcovers := of_decide_eq_true hcovers
    have hedged := h.edged t ht
    exact hplace ⟨lt_of_lt_of_le hcovers.2 hedged.le_limit,
      hedged.no_separator place hcovers.1 hcovers.2⟩

/-- The tokens are the runs. -/
theorem edged_iff (h : Splits bytes limit tokens) :
    Edged bytes limit start stop ↔ ∃ t ∈ tokens, t.start = start ∧ t.stop = stop := by
  constructor
  · intro hedged
    have hsome := hedged.nonempty
    have hle := hedged.le_limit
    obtain ⟨t, ht, hcovers⟩ :=
      h.covered start (by omega) (hedged.no_separator start le_rfl hsome)
    obtain ⟨hstart, hstop⟩ := hcovers
    have ht' := h.edged t ht
    have hwithin := ht'.contains hle hedged.no_separator hstop (by omega)
    have hwithin' := hedged.contains ht'.le_limit ht'.no_separator (by omega) hstop
    exact ⟨t, ht, by omega, by omega⟩
  · rintro ⟨t, ht, rfl, rfl⟩
    exact h.edged t ht

end Splits

end Runs

namespace Token.CutFrom

variable {t : Token} {cs after : List Char}

theorem stop_eq (h : t.CutFrom cs []) : t.stop = byteLength cs := by
  obtain ⟨before, rfl, hoffset⟩ := h
  rw [List.append_nil, Text.byteLength_append, Token.stop, Token.start, hoffset,
    Nat.add_sub_cancel]

theorem append (h : t.CutFrom cs after) (rest : List Char) :
    t.CutFrom (cs ++ rest) (after ++ rest) := by
  obtain ⟨before, rfl, hoffset⟩ := h
  exact ⟨before, by simp only [List.append_assoc], hoffset⟩

/-- The token has the bytes of the line from its column on. -/
theorem bytes_eq (h : t.CutFrom cs after) :
    Text.bytes t.text.toList = ((Text.bytes cs).drop (t.offset - 1)).take (t.stop - t.start) := by
  obtain ⟨before, rfl, hoffset⟩ := h
  have hlength : t.stop - t.start = (Text.bytes t.text.toList).length := by
    rw [Token.stop, Nat.add_sub_cancel_left, Text.length_bytes]
  rw [hoffset, Nat.add_sub_cancel, hlength, Text.bytes_append, Text.bytes_append,
    List.append_assoc, List.drop_left' (Text.length_bytes before), List.take_left]

/-- The token starts and ends between characters. -/
theorem isValid (h : t.CutFrom cs after) :
    String.Pos.Raw.IsValid (String.ofList cs) ⟨t.start⟩ ∧
    String.Pos.Raw.IsValid (String.ofList cs) ⟨t.stop⟩ := by
  obtain ⟨before, rfl, hoffset⟩ := h
  have hstart : t.start = byteLength before := by rw [Token.start, hoffset, Nat.add_sub_cancel]
  constructor
  · rw [String.Pos.Raw.isValid_iff_exists_append]
    refine ⟨String.ofList before, String.ofList (t.text.toList ++ after), ?_, ?_⟩
    · rw [← String.ofList_append, List.append_assoc]
    · rw [hstart]
      rfl
  · rw [String.Pos.Raw.isValid_iff_exists_append]
    refine ⟨String.ofList (before ++ t.text.toList), String.ofList after, ?_, ?_⟩
    · rw [← String.ofList_append]
    · rw [Token.stop, hstart, ← Text.byteLength_append]
      rfl

end Token.CutFrom

/-! ## The scanner finds the runs -/

/-- What the scanner has found when it has read the characters `before`. -/
structure Splitting (cs before : List Char) (column : Nat) (quoted : Bool)
    (token : Option OpenToken) (done : Array Token) : Prop where
  scanned : Scanned cs before column quoted token done
  splits : Splits (Text.bytes cs) (byteLength before) (closed done token).toList
  cut : ∀ t ∈ done, ∃ after, t.CutFrom cs after
  opened : ∀ t, token = some t → t.close.CutFrom before []

/-- Where no token goes on one can start. -/
theorem Gap.edge (h : Gap before) (rest : List Char) :
    byteLength before = 0 ∨ SeparatorAt (Text.bytes (before ++ rest)) (byteLength before - 1) := by
  rcases h with rfl | ⟨p, c, rfl, hdivides⟩
  · exact .inl rfl
  · obtain ⟨-, -, -, hsize⟩ := isSeparator_ascii hdivides.1
    refine .inr (separatorAt_iff.mpr ⟨p, c, rest, by simp, ?_, hdivides⟩)
    rw [Text.byteLength_append, Text.byteLength_singleton, hsize, Nat.add_sub_cancel]

/-- Where no token goes on quotes are closed. -/
theorem Gap.inQuotes_eq (h : Gap before) : inQuotes before = false := by
  rcases h with rfl | ⟨p, c, rfl, hc, hquotes⟩
  · rfl
  · obtain ⟨-, hquote, -, -⟩ := isSeparator_ascii hc
    rw [inQuotes_concat, hquotes, beq_false_of_ne hquote]
    rfl

/-- No byte of a character that belongs to a token is a separator. -/
theorem not_separatorAt_of_char (hdivides : ¬ Divides before c)
    (hle : byteLength before ≤ place) (hlt : place < byteLength (before ++ [c])) :
    ¬ SeparatorAt (Text.bytes (before ++ c :: rest)) place := by
  intro hseparator
  obtain ⟨p, d, q, hsplit, rfl, hd⟩ := separatorAt_iff.mp hseparator
  rw [Text.byteLength_append, Text.byteLength_singleton] at hlt
  obtain ⟨rfl, rfl⟩ := eq_of_place hsplit hle hlt
  exact hdivides hd

namespace Splitting

variable {column : Nat} {quoted : Bool} {token : Option OpenToken} {done : Array Token}

theorem start (cs : List Char) : Splitting cs [] 1 false none #[] where
  scanned := .start cs
  splits := .nil _
  cut t h := absurd h (Array.not_mem_empty t)
  opened t h := by cases h

theorem cut_closed (h : Splitting cs before column quoted token done) (hcs : cs = before ++ rest) :
    ∀ t ∈ closed done token, ∃ after, t.CutFrom cs after := by
  intro t ht
  cases htoken : token with
  | none =>
      rw [htoken] at ht
      exact h.cut t ht
  | some opened =>
      rw [htoken] at ht
      rcases Array.mem_push.mp ht with ht | rfl
      · exact h.cut t ht
      · exact ⟨[] ++ rest, hcs ▸ (h.opened opened htoken).append rest⟩

theorem separator (h : Splitting cs before column false token done)
    (hcs : cs = before ++ c :: rest) (hc : isSeparator c = true) :
    Splitting cs (before ++ [c]) (column + 1) false none (closed done token) where
  scanned := h.scanned.separator hc
  splits := by
    obtain ⟨-, -, -, hsize⟩ := isSeparator_ascii hc
    rw [Text.byteLength_append, Text.byteLength_singleton, hsize]
    exact h.splits.separator
      (separatorAt_iff.mpr ⟨before, c, rest, hcs, rfl, hc, h.scanned.quoted.symm⟩)
  cut := h.cut_closed hcs
  opened t ht := by cases ht

/-- The token that goes on, or starts, with one more character: the others end where it starts, and
so far it holds no separator. -/
theorem extended_edge (h : Splitting cs before column quoted token done)
    (hcs : cs = before ++ rest) {t : Token} (ht : t = (extended column c token).close) :
    t.CutFrom (before ++ [c]) [] ∧ t.start ≤ byteLength before ∧
    Splits (Text.bytes cs) t.start done.toList ∧
    (t.start = 0 ∨ SeparatorAt (Text.bytes cs) (t.start - 1)) ∧
    ∀ place, t.start ≤ place → place < byteLength before →
      ¬ SeparatorAt (Text.bytes cs) place := by
  cases htoken : token with
  | none =>
      have ht : t = ⟨String.ofList [c], column⟩ := by rw [ht, htoken]; rfl
      have hstart : t.start = byteLength before := by
        rw [ht, Token.start, h.scanned.column, Nat.add_sub_cancel]
      have hsplits := h.splits
      rw [htoken] at hsplits
      rw [hstart]
      refine ⟨⟨before, by simp [ht], ht ▸ h.scanned.column⟩, le_rfl, hsplits, ?_, ?_⟩
      · rw [hcs]
        exact (h.scanned.gap htoken).edge rest
      · intro place hle hlt
        omega
  | some opened =>
      -- The open token was the last run so far, and the run that takes its place starts with it.
      have ht : t = ⟨String.ofList (c :: opened.chars).reverse, opened.offset⟩ := by
        rw [ht, htoken]
        rfl
      have hstart : t.start = opened.close.start := by rw [ht]; rfl
      have hsplits : Splits (Text.bytes cs) (byteLength before) (done.toList ++ [opened.close]) := by
        have hsplits := h.splits
        rwa [htoken, closed, Array.toList_push] at hsplits
      have hstop := (h.opened opened htoken).stop_eq
      have hedged := hsplits.edged opened.close (by simp)
      have hlt := hedged.nonempty
      obtain ⟨p, hbefore, hoffset⟩ := h.opened opened htoken
      rw [hstart]
      refine ⟨⟨p, ?_, ht ▸ hoffset⟩, by omega, hsplits.init, hedged.left, ?_⟩
      · rw [hbefore, ht]
        simp [OpenToken.close]
      · intro place hle hlt
        exact hedged.no_separator place hle (by omega)

theorem extend (h : Splitting cs before column quoted token done) (hcs : cs = before ++ c :: rest)
    (hcomment : c = '#' → quoted = true) (hdivides : isSeparator c = true → quoted = true) :
    Splitting cs (before ++ [c]) (column + c.utf8Size) (quoted != (c == '"'))
      (some (extended column c token)) done := by
  obtain ⟨hcut, hle, hsplits, hleft, hfree⟩ := h.extended_edge hcs rfl
  have hstop := hcut.stop_eq
  have hnot : ¬ Divides before c := by
    rintro ⟨hc, hquotes⟩
    have hquoted := hdivides hc
    rw [h.scanned.quoted, hquotes] at hquoted
    cases hquoted
  refine ⟨h.scanned.extend hcs hcomment hdivides, ?_, h.cut, fun t ht => ?_⟩
  · rw [closed, Array.toList_push, ← hstop]
    refine hsplits.concat ?_ hleft fun place hstart hlt => ?_
    · have hpos := c.utf8Size_pos
      rw [hstop, Text.byteLength_append, Text.byteLength_singleton]
      omega
    · by_cases hplace : place < byteLength before
      · exact hfree place hstart hplace
      · rw [hcs]
        exact not_separatorAt_of_char hnot (Nat.le_of_not_lt hplace) (hstop ▸ hlt)
  · cases ht
    exact hcut

end Splitting

/-- The tokens of a line, as its bytes tell them. -/
structure TokensOf (cs : List Char) (tokens : List Token) : Prop where
  /-- Each token ends before the next one starts. -/
  ordered : tokens.Pairwise fun s t => s.stop < t.start
  /-- They are the maximal runs without separators before the comment. -/
  runs : ∀ start stop, MaximalRun (Text.bytes cs) start stop ↔
    ∃ t ∈ tokens, t.start = start ∧ t.stop = stop
  /-- Columns count from one, and the text of a token stands in the line from its column on. -/
  texts : ∀ t ∈ tokens, 1 ≤ t.offset ∧
    t.text.toUTF8.toList = ((Text.bytes cs).drop (t.offset - 1)).take (t.stop - t.start)
  /-- No token cuts a character into two. -/
  boundaries : ∀ t ∈ tokens, String.Pos.Raw.IsValid (String.ofList cs) ⟨t.start⟩ ∧
    String.Pos.Raw.IsValid (String.ofList cs) ⟨t.stop⟩
  /-- Before the comment every byte that is no separator is in one token, and no other byte is. -/
  once : ∀ place, tokens.countP (fun t => t.Covers place)
    = if place < commentStart (Text.bytes cs) ∧ ¬ SeparatorAt (Text.bytes cs) place then 1 else 0

theorem Splits.tokensOf {cs : List Char} {tokens : List Token}
    (h : Splits (Text.bytes cs) (commentStart (Text.bytes cs)) tokens)
    (hcut : ∀ t ∈ tokens, ∃ after, t.CutFrom cs after) : TokensOf cs tokens where
  ordered := h.ordered
  runs start stop := maximalRun_iff.trans h.edged_iff
  texts t ht := by
    obtain ⟨after, hcut⟩ := hcut t ht
    refine ⟨?_, ?_⟩
    · obtain ⟨before, -, hoffset⟩ := hcut
      omega
    · rw [← hcut.bytes_eq, Text.bytes, String.ofList_toList]
  boundaries t ht := by
    obtain ⟨after, hcut⟩ := hcut t ht
    exact hcut.isValid
  once := h.countP_covers

/-- The scan of a line fails if a quote is open where it stops, and finds the tokens otherwise. -/
theorem scan_cases (cs : List Char) :
    (QuotedAt (Text.bytes cs) (commentStart (Text.bytes cs)) ∧
      ∃ offset, scan 1 false none #[] cs = .error offset) ∨
    (¬ QuotedAt (Text.bytes cs) (commentStart (Text.bytes cs)) ∧
      ∃ tokens, scan 1 false none #[] cs = .ok tokens ∧ TokensOf cs tokens.toList) := by
  obtain ⟨hline, hstop, h, hresult⟩ := stopped_of_scan (P := Splitting cs)
    (fun hcs h hc => h.separator hcs hc) (fun hcs h => h.extend hcs) cs (List.nil_append cs).symm
    (.start cs)
  rename_i read unread column quoted token done
  have hquoted := h.scanned.quoted
  have hend : commentStart (Text.bytes cs) = byteLength read := by
    rw [hline]
    exact commentStart_of_stop h.scanned.uncommented (hquoted ▸ hstop)
  have hplace : QuotedAt (Text.bytes cs) (byteLength read) ↔ quoted = true := by
    rw [hline, quotedAt_iff, hquoted]
  rw [hresult, hend, hplace]
  cases hq : quoted with
  | true =>
      -- Quotes are open inside a token only, and it is the one to name.
      refine .inl ⟨rfl, ?_⟩
      cases htoken : token with
      | some opened => exact ⟨opened.offset, rfl⟩
      | none =>
          rw [(h.scanned.gap htoken).inQuotes_eq, hq] at hquoted
          cases hquoted
  | false =>
      refine .inr ⟨Bool.false_ne_true, closed done token, rfl, ?_⟩
      refine Splits.tokensOf (hend ▸ h.splits) fun t ht => ?_
      exact h.cut_closed hline t (Array.mem_toList_iff.mp ht)

/-- **Tokens are the runs between separators.**  A line is refused exactly if a quote is open where
its comment starts, or where it ends if it has none.  Any other line has tokens: the maximal runs of
bytes before the comment without separators, in order, with the text and the column that they have
in the line.  No character is cut into two, and no byte but separators and the comment is left out
or in two tokens. -/
theorem tokenize_exact (number : Nat) (cs : List Char) :
    ((∃ error, tokenize number cs = .error error) ↔
      QuotedAt (Text.bytes cs) (commentStart (Text.bytes cs))) ∧
    (¬ QuotedAt (Text.bytes cs) (commentStart (Text.bytes cs)) →
      ∃ tokens, tokenize number cs = .ok tokens ∧ TokensOf cs tokens) := by
  rcases scan_cases cs with ⟨hquoted, offset, hscan⟩ | ⟨hquoted, tokens, hscan, htokens⟩
  · have hresult : ∃ error, tokenize number cs = .error error := by
      rw [tokenize, hscan]
      exact ⟨_, rfl⟩
    exact ⟨⟨fun _ => hquoted, fun _ => hresult⟩, fun hnot => absurd hquoted hnot⟩
  · have hresult : tokenize number cs = .ok tokens.toList := by rw [tokenize, hscan]
    refine ⟨⟨?_, fun h => absurd h hquoted⟩, fun _ => ⟨tokens.toList, hresult, htokens⟩⟩
    rintro ⟨error, herror⟩
    cases hresult.symm.trans herror

/-- A line with separators and `#` inside quotes, a character of two bytes, and a comment with an open
quote right behind a token. -/
def gluedLine : List Char :=
  ['a', '"', 'b', ',', ' ', '#', 'é', '"', 'c', ',', '"', '"', '#', '"', 'd']

theorem tokenize_exact_gluedLine :
    tokenize 1 gluedLine = .ok [⟨"a\"b, #é\"c", 1⟩, ⟨"\"\"", 12⟩] ∧
    TokensOf gluedLine [⟨"a\"b, #é\"c", 1⟩, ⟨"\"\"", 12⟩] := by
  have hok : tokenize 1 gluedLine = .ok [⟨"a\"b, #é\"c", 1⟩, ⟨"\"\"", 12⟩] := rfl
  refine ⟨hok, ?_⟩
  obtain ⟨hfails, htokens⟩ := tokenize_exact 1 gluedLine
  obtain ⟨tokens, htokenize, hof⟩ := htokens fun hquoted => by
    obtain ⟨error, herror⟩ := hfails.mpr hquoted
    cases hok.symm.trans herror
  cases hok.symm.trans htokenize
  exact hof

end Assembly

end RegisterMachine
