import Mathlib
import RegisterMachine.Codec.Basic

/-!
# Codecs read what they write

For every codec, reading inverts writing in both directions:

| statement            | says                                                               |
|----------------------|--------------------------------------------------------------------|
| `reads_encode`       | what is written is read back, and the bytes after it are left      |
| `refuses_encode`     | unless some text or sequence in the value is longer than may be    |
| `written_of_decode`  | only what is written can be read                                   |
| `mutually_inverse`   | both directions, and that no written value begins another          |

`Reader.Reads` states the first two for any reader, so that they go through `bind`.  Lengths are
written as eight bytes; a value with a length of `2 ^ 64` or more, which no memory holds, is none
that these lemmas are about.
-/

namespace RegisterMachine

/-! ## Numbers as bytes -/

@[simp] theorem length_littleEndian (n value : Nat) : (littleEndian n value).length = n := by
  induction n generalizing value with
  | zero => rfl
  | succ n ih => rw [littleEndian, List.length_cons, ih]

theorem ofLittleEndian_littleEndian (n value : Nat) :
    ofLittleEndian (littleEndian n value) = value % 256 ^ n := by
  induction n generalizing value with
  | zero => rw [pow_zero, Nat.mod_one]; rfl
  | succ n ih =>
      rw [littleEndian, ofLittleEndian, ih, UInt8.toNat_ofNat', pow_succ' 256 n, Nat.mod_mul]

theorem ofLittleEndian_lt (bytes : List UInt8) : ofLittleEndian bytes < 256 ^ bytes.length := by
  induction bytes with
  | nil => decide
  | cons byte rest ih =>
      have := byte.toNat_lt
      rw [ofLittleEndian, List.length_cons, pow_succ]
      omega

theorem littleEndian_ofLittleEndian (bytes : List UInt8) :
    littleEndian bytes.length (ofLittleEndian bytes) = bytes := by
  induction bytes with
  | nil => rfl
  | cons byte rest ih =>
      have hbyte := byte.toNat_lt
      have hlow : UInt8.ofNat (byte.toNat + 256 * ofLittleEndian rest) = byte := by
        rw [← UInt8.toNat_inj, UInt8.toNat_ofNat']
        omega
      have hhigh : (byte.toNat + 256 * ofLittleEndian rest) / 256 = ofLittleEndian rest := by
        omega
      rw [List.length_cons, ofLittleEndian, littleEndian, hlow, hhigh, ih]

/-! ## Texts as bytes -/

theorem byteLoop_eq (bytes : ByteArray) (i : Nat) (done : List UInt8) :
    ByteArray.toList.loop bytes i done = done.reverse ++ bytes.data.toList.drop i := by
  fun_induction ByteArray.toList.loop bytes i done with
  | case1 i done h ih =>
      have hi : i < bytes.data.toList.length := by simpa using h
      have hget : bytes.get! i = bytes.data.toList[i] := getElem!_pos bytes.data i h
      rw [ih, List.drop_eq_getElem_cons hi, hget]
      simp
  | case2 i done h =>
      have hi : bytes.data.toList.length ≤ i := by simpa using h
      rw [List.drop_eq_nil_of_le hi, List.append_nil]

theorem toList_eq_data (bytes : ByteArray) : bytes.toList = bytes.data.toList := by
  rw [ByteArray.toList, byteLoop_eq]
  rfl

theorem length_toUTF8 (s : String) : s.toUTF8.toList.length = s.utf8ByteSize := by
  rw [toList_eq_data, Array.length_toList]
  rfl

/-- Bytes are those of a text exactly if they are read as it. -/
theorem fromUTF8?_eq_some {bytes : List UInt8} {s : String} :
    String.fromUTF8? ⟨bytes.toArray⟩ = some s ↔ bytes = s.toUTF8.toList := by
  rw [toList_eq_data, String.fromUTF8?]
  constructor
  · intro h
    split at h
    · cases h
      rfl
    · cases h
  · rintro rfl
    exact dif_pos s.isValidUTF8

namespace Reader

variable {α β : Type}

/-! ## What a reader does with bytes in front of others -/

/-- The reader takes these bytes, whatever follows them, and has this result. -/
def Reads (reader : Reader α) (bytes : List UInt8) (result : Except DecodeError α) : Prop :=
  ∀ rest, reader.run (bytes ++ rest) = result.map fun a => (a, rest)

namespace Reads

variable {reader : Reader α} {next : α → Reader β} {bytes₁ bytes₂ : List UInt8} {a : α}

theorem pure (a : α) : Reads (pure a) [] (.ok a) := fun _ => rfl

theorem bind {result : Except DecodeError β} (h : Reads reader bytes₁ (.ok a))
    (h' : Reads (next a) bytes₂ result) : Reads (reader >>= next) (bytes₁ ++ bytes₂) result := by
  intro rest
  rw [StateT.run_bind, List.append_assoc, h]
  exact h' rest

/-- Where the last reader takes no bytes. -/
theorem bind_nil {result : Except DecodeError β} (h : Reads reader bytes₁ (.ok a))
    (h' : Reads (next a) [] result) : Reads (reader >>= next) bytes₁ result := by
  simpa using h.bind h'

theorem fail {error : DecodeError} (h : Reads reader bytes₁ (.error error)) (next : α → Reader β)
    (bytes₂ : List UInt8) : Reads (reader >>= next) (bytes₁ ++ bytes₂) (.error error) := by
  intro rest
  rw [StateT.run_bind, List.append_assoc, h]
  rfl

theorem fail_nil {error : DecodeError} (h : Reads reader bytes₁ (.error error))
    (next : α → Reader β) : Reads (reader >>= next) bytes₁ (.error error) := by
  simpa using h.fail next []

end Reads

theorem reads_throw (error : DecodeError) (bytes : List UInt8) :
    Reads (throw error : Reader α) bytes (.error error) := fun _ => rfl

theorem reads_take (bytes : List UInt8) : Reads (take bytes.length) bytes (.ok bytes) := by
  intro rest
  show take bytes.length (bytes ++ rest) = _
  rw [take, List.take_left, if_neg (Nat.lt_irrefl _), List.drop_left]
  rfl

theorem reads_natural {n value : Nat} (h : value < 256 ^ n) :
    Reads (natural n) (littleEndian n value) (.ok value) := by
  have htake := reads_take (littleEndian n value)
  rw [length_littleEndian] at htake
  have hvalue : ofLittleEndian (littleEndian n value) = value := by
    rw [ofLittleEndian_littleEndian, Nat.mod_eq_of_lt h]
  refine htake.bind_nil ?_
  rw [hvalue]
  exact Reads.pure value

theorem reads_length {n : Nat} (h : n ≤ maxLength) :
    Reads length (Codec.encodeLength n) (.ok n) := by
  have hn : n < 256 ^ 8 := Nat.lt_of_le_of_lt h (by decide)
  refine (reads_natural hn).bind_nil ?_
  rw [if_neg (Nat.not_lt.mpr h)]
  exact Reads.pure n

theorem refuses_length {n : Nat} (h : maxLength < n) (hn : n < 2 ^ 64) :
    Reads length (Codec.encodeLength n) (.error .lengthOverflow) := by
  refine (reads_natural hn).bind_nil ?_
  rw [if_pos h]
  exact reads_throw _ _

theorem reads_text {s : String} (h : s.utf8ByteSize ≤ maxLength) :
    Reads text (Codec.string.encode s) (.ok s) := by
  have htake := reads_take s.toUTF8.toList
  rw [length_toUTF8] at htake
  have hutf8 := fromUTF8?_eq_some.mpr (rfl : s.toUTF8.toList = s.toUTF8.toList)
  refine (reads_length h).bind (htake.bind_nil ?_)
  rw [hutf8]
  exact Reads.pure s

theorem refuses_text {s : String} (h : maxLength < s.utf8ByteSize) (hs : s.utf8ByteSize < 2 ^ 64) :
    Reads text (Codec.string.encode s) (.error .lengthOverflow) :=
  (refuses_length h hs).fail _ _

theorem reads_flag (b : Bool) : Reads flag (Codec.bool.encode b) (.ok b) := by
  have hzero : 0 < 256 ^ 1 := by decide
  have hone : 1 < 256 ^ 1 := by decide
  cases b with
  | false => exact (reads_natural hzero).bind_nil (Reads.pure false)
  | true => exact (reads_natural hone).bind_nil (Reads.pure true)

section Elements

variable {element : Reader α} {write : α → List UInt8}

theorem reads_elements {items : List α} (h : ∀ a ∈ items, Reads element (write a) (.ok a)) :
    ∀ done : Array α, Reads (elements element items.length done) (items.flatMap write)
      (.ok (done ++ items.toArray)) := by
  induction items with
  | nil =>
      intro done
      rw [Array.append_empty]
      exact Reads.pure done
  | cons a rest ih =>
      intro done
      have hrest := ih (fun b hb => h b (List.mem_cons_of_mem a hb)) (done.push a)
      rw [show done ++ (a :: rest).toArray = done.push a ++ rest.toArray by simp]
      exact (h a List.mem_cons_self).bind hrest

/-- Elements are read until the first that is refused. -/
theorem refuses_elements {good : α → Prop} {error : DecodeError} {items : List α}
    (hgood : ∀ a, good a → Reads element (write a) (.ok a))
    (hbad : ∀ a ∈ items, ¬ good a → Reads element (write a) (.error error))
    (h : ¬ ∀ a ∈ items, good a) :
    ∀ done : Array α, Reads (elements element items.length done) (items.flatMap write)
      (.error error) := by
  induction items with
  | nil => exact absurd (List.forall_mem_nil _) h
  | cons a rest ih =>
      intro done
      by_cases ha : good a
      · have hrest : ¬ ∀ b ∈ rest, good b := by
          intro hall
          apply h
          rintro b (_ | ⟨_, hb⟩)
          · exact ha
          · exact hall b hb
        refine (hgood a ha).bind (ih (fun b hb => ?_) hrest (done.push a))
        exact hbad b (List.mem_cons_of_mem a hb)
      · exact (hbad a List.mem_cons_self ha).fail _ _

end Elements

/-! ## What a reader must have taken -/

section Written

variable {input rest : List UInt8}

theorem run_bind_eq_ok {reader : Reader α} {next : α → Reader β} {b : β}
    (h : (reader >>= next).run input = .ok (b, rest)) :
    ∃ a middle, reader.run input = .ok (a, middle) ∧ (next a).run middle = .ok (b, rest) := by
  rw [StateT.run_bind] at h
  cases hr : reader.run input with
  | error error => rw [hr] at h; cases h
  | ok result => rw [hr] at h; exact ⟨result.1, result.2, rfl, h⟩

theorem written_take {n : Nat} {bytes : List UInt8} (h : (take n).run input = .ok (bytes, rest)) :
    bytes.length = n ∧ input = bytes ++ rest := by
  have h' : take n input = .ok (bytes, rest) := h
  rw [take] at h'
  split at h'
  · cases h'
  · rename_i hn
    cases h'
    refine ⟨Nat.le_antisymm (List.length_take_le n input) (Nat.le_of_not_lt hn), ?_⟩
    exact (List.take_append_drop n input).symm

theorem written_natural {n value : Nat} (h : (natural n).run input = .ok (value, rest)) :
    value < 256 ^ n ∧ input = littleEndian n value ++ rest := by
  obtain ⟨bytes, middle, htake, hpure⟩ := run_bind_eq_ok h
  obtain ⟨hlength, hinput⟩ := written_take htake
  cases hpure
  subst hlength
  rw [littleEndian_ofLittleEndian]
  exact ⟨ofLittleEndian_lt bytes, hinput⟩

theorem written_length {n : Nat} (h : length.run input = .ok (n, rest)) :
    n ≤ maxLength ∧ input = Codec.encodeLength n ++ rest := by
  obtain ⟨value, middle, hnatural, hcheck⟩ := run_bind_eq_ok h
  split at hcheck
  · cases hcheck
  · rename_i hle
    cases hcheck
    exact ⟨Nat.le_of_not_lt hle, (written_natural hnatural).2⟩

theorem written_flag {b : Bool} (h : flag.run input = .ok (b, rest)) :
    input = Codec.bool.encode b ++ rest := by
  obtain ⟨value, middle, hnatural, hmatch⟩ := run_bind_eq_ok h
  have hinput := (written_natural hnatural).2
  split at hmatch
  · cases hmatch; exact hinput
  · cases hmatch; exact hinput
  · cases hmatch

theorem written_text {s : String} (h : text.run input = .ok (s, rest)) :
    s.utf8ByteSize ≤ maxLength ∧ input = Codec.string.encode s ++ rest := by
  obtain ⟨n, middle, hlength, h⟩ := run_bind_eq_ok h
  obtain ⟨bytes, middle', htake, hmatch⟩ := run_bind_eq_ok h
  obtain ⟨hn, hinput⟩ := written_length hlength
  obtain ⟨hsize, hmiddle⟩ := written_take htake
  split at hmatch
  · rename_i s' hutf8
    cases hmatch
    have hbytes := fromUTF8?_eq_some.mp hutf8
    rw [hbytes, length_toUTF8] at hsize
    rw [hsize, hinput, hmiddle, hbytes, Codec.encode, hsize, List.append_assoc]
    exact ⟨hn, rfl⟩
  · cases hmatch

theorem written_elements {element : Reader α} {write : α → List UInt8} {good : α → Prop}
    (helement : ∀ {input a rest}, element.run input = .ok (a, rest) →
      good a ∧ input = write a ++ rest) :
    ∀ {n : Nat} {done items : Array α} {input : List UInt8},
      (elements element n done).run input = .ok (items, rest) →
      ∃ more : List α, items = done ++ more.toArray ∧ more.length = n ∧ (∀ a ∈ more, good a) ∧
        input = more.flatMap write ++ rest := by
  intro n
  induction n with
  | zero =>
      intro done items input h
      cases h
      exact ⟨[], by simp, rfl, List.forall_mem_nil _, rfl⟩
  | succ n ih =>
      intro done items input h
      obtain ⟨a, middle, ha, hrest⟩ := run_bind_eq_ok h
      obtain ⟨hgood, hinput⟩ := helement ha
      obtain ⟨more, hitems, hlength, hmore, hmiddle⟩ := ih hrest
      refine ⟨a :: more, by simp [hitems], by simp [hlength], ?_, ?_⟩
      · rintro b (_ | ⟨_, hb⟩)
        · exact hgood
        · exact hmore b hb
      · rw [hinput, hmiddle, List.flatMap_cons, List.append_assoc]

end Written

end Reader

namespace Codec

/-! ## Every codec reads what it writes -/

/-- Every text and every sequence in a value is at most `limit` long. -/
def Within (limit : Nat) : {α : Type} → Codec α → α → Prop
  | _, bytes _, _ => True
  | _, bool, _ => True
  | _, string, value => value.utf8ByteSize ≤ limit
  | _, seq element, value => value.size ≤ limit ∧ ∀ a ∈ value, element.Within limit a
  | _, option element, value => ∀ a ∈ value, element.Within limit a
  | _, vector _ element, value => ∀ a ∈ value, element.Within limit a
  | _, pair first second, value => first.Within limit value.1 ∧ second.Within limit value.2
  | _, iso inner _ unwrap _ _, value => inner.Within limit (unwrap value)

open Reader (Reads)

/-- What is written is read back, and nothing else is taken. -/
theorem reads_encode {α : Type} (codec : Codec α) :
    ∀ value : α, codec.Within maxLength value →
      Reads codec.decode (codec.encode value) (.ok value) := by
  induction codec with
  | bytes n =>
      intro value _
      have hlt : value.toNat < 256 ^ n := by
        have := value.isLt
        rwa [pow_mul] at this
      refine (Reader.reads_natural hlt).bind_nil ?_
      rw [BitVec.ofNat_toNat, BitVec.setWidth_eq]
      exact Reads.pure value
  | bool => intro value _; exact Reader.reads_flag value
  | string => intro value h; exact Reader.reads_text h
  | seq element ih =>
      intro value h
      have helements := Reader.reads_elements
        (fun a ha => ih a (h.2 a (Array.mem_toList_iff.mp ha))) #[]
      rw [Array.length_toList, Array.empty_append, Array.toArray_toList] at helements
      exact (Reader.reads_length h.1).bind helements
  | option element ih =>
      intro value h
      cases value with
      | none => exact (Reader.reads_flag false).bind_nil (Reads.pure none)
      | some a =>
          exact (Reader.reads_flag true).bind ((ih a (h a rfl)).bind_nil (Reads.pure (some a)))
  | vector n element ih =>
      intro value h
      -- the number of elements is known, so that no length is in front of them
      have helements := Reader.reads_elements
        (fun a ha => ih a (h a (Vector.mem_toList_iff.mp ha))) #[]
      rw [Vector.length_toList, Array.empty_append, Vector.toArray_toList] at helements
      refine helements.bind_nil ?_
      rw [dif_pos value.size_toArray]
      exact Reads.pure value
  | pair first second ih₁ ih₂ =>
      rintro ⟨a, b⟩ h
      exact (ih₁ a h.1).bind ((ih₂ b h.2).bind_nil (Reads.pure (a, b)))
  | iso inner wrap unwrap hwrap hunwrap ih =>
      intro value h
      refine (ih (unwrap value) h).bind_nil ?_
      rw [hwrap]
      exact Reads.pure value

/-- What is too long is refused. -/
theorem refuses_encode {α : Type} (codec : Codec α) :
    ∀ value : α, codec.Within (2 ^ 64 - 1) value → ¬ codec.Within maxLength value →
      Reads codec.decode (codec.encode value) (.error .lengthOverflow) := by
  induction codec with
  | bytes n => intro value _ hn; exact absurd trivial hn
  | bool => intro value _ hn; exact absurd trivial hn
  | string =>
      intro value h hn
      exact Reader.refuses_text (Nat.lt_of_not_le hn) (Nat.lt_of_le_pred (by decide) h)
  | seq element ih =>
      intro value h hn
      by_cases hsize : value.size ≤ maxLength
      · have hbad : ¬ ∀ a ∈ value.toList, element.Within maxLength a := fun hall =>
          hn ⟨hsize, fun a ha => hall a (Array.mem_toList_iff.mpr ha)⟩
        have helements := Reader.refuses_elements (element.reads_encode)
          (fun a ha => ih a (h.2 a (Array.mem_toList_iff.mp ha))) hbad #[]
        rw [Array.length_toList] at helements
        exact (Reader.reads_length hsize).bind helements
      · exact (Reader.refuses_length (Nat.lt_of_not_le hsize)
          (Nat.lt_of_le_pred (by decide) h.1)).fail _ _
  | option element ih =>
      intro value h hn
      cases value with
      | none => exact absurd (fun a ha => by cases ha) hn
      | some a =>
          have ha : ¬ element.Within maxLength a := fun ha =>
            hn fun b hb => Option.some.inj hb ▸ ha
          exact (Reader.reads_flag true).bind ((ih a (h a rfl) ha).fail_nil _)
  | vector n element ih =>
      intro value h hn
      have hbad : ¬ ∀ a ∈ value.toList, element.Within maxLength a := fun hall =>
        hn fun a ha => hall a (Vector.mem_toList_iff.mpr ha)
      have helements := Reader.refuses_elements (element.reads_encode)
        (fun a ha => ih a (h a (Vector.mem_toList_iff.mp ha))) hbad #[]
      rw [Vector.length_toList] at helements
      exact helements.fail_nil _
  | pair first second ih₁ ih₂ =>
      rintro ⟨a, b⟩ h hn
      by_cases ha : first.Within maxLength a
      · have hb : ¬ second.Within maxLength b := fun hb => hn ⟨ha, hb⟩
        exact (first.reads_encode a ha).bind ((ih₂ b h.2 hb).fail_nil _)
      · exact (ih₁ a h.1 ha).fail _ _
  | iso inner wrap unwrap hwrap hunwrap ih =>
      intro value h hn
      exact (ih (unwrap value) h hn).fail_nil _

/-- Only what is written can be read. -/
theorem written_of_decode {α : Type} (codec : Codec α) :
    ∀ {input : List UInt8} {value : α} {rest : List UInt8},
      codec.decode.run input = .ok (value, rest) →
      codec.Within maxLength value ∧ input = codec.encode value ++ rest := by
  induction codec with
  | bytes n =>
      intro input value rest h
      obtain ⟨number, middle, hnatural, hpure⟩ := Reader.run_bind_eq_ok h
      obtain ⟨hlt, hinput⟩ := Reader.written_natural hnatural
      cases hpure
      refine ⟨trivial, ?_⟩
      rw [encode, BitVec.toNat_ofNat, pow_mul,
        Nat.mod_eq_of_lt (show number < (2 ^ 8) ^ n from hlt)]
      exact hinput
  | bool => intro input value rest h; exact ⟨trivial, Reader.written_flag h⟩
  | string => intro input value rest h; exact Reader.written_text h
  | seq element ih =>
      intro input value rest h
      obtain ⟨n, middle, hlength, helements⟩ := Reader.run_bind_eq_ok h
      obtain ⟨hn, hinput⟩ := Reader.written_length hlength
      obtain ⟨more, hvalue, rfl, hgood, hmiddle⟩ := Reader.written_elements ih helements
      rw [Array.empty_append] at hvalue
      subst hvalue
      refine ⟨⟨hn, fun a ha => hgood a (List.mem_toArray.mp ha)⟩, ?_⟩
      rw [hinput, hmiddle, encode, List.append_assoc]
      rfl
  | option element ih =>
      intro input value rest h
      obtain ⟨present, middle, hflag, hvalue⟩ := Reader.run_bind_eq_ok h
      have hinput := Reader.written_flag hflag
      cases present with
      | false =>
          cases hvalue
          refine ⟨?_, hinput⟩
          intro a ha
          cases ha
      | true =>
          obtain ⟨a, middle', ha, hpure⟩ := Reader.run_bind_eq_ok hvalue
          cases hpure
          obtain ⟨hgood, hmiddle⟩ := ih ha
          refine ⟨fun b hb => Option.some.inj hb ▸ hgood, ?_⟩
          rw [hinput, hmiddle]
          rfl
  | vector n element ih =>
      intro input value rest h
      obtain ⟨items, middle, helements, hvalue⟩ := Reader.run_bind_eq_ok h
      obtain ⟨more, hitems, hlength, hgood, hinput⟩ := Reader.written_elements ih helements
      rw [Array.empty_append] at hitems
      subst hitems
      split at hvalue
      · cases hvalue
        exact ⟨fun a ha => hgood a (by simpa using ha), hinput⟩
      · cases hvalue
  | pair first second ih₁ ih₂ =>
      intro input value rest h
      obtain ⟨a, middle, ha, h⟩ := Reader.run_bind_eq_ok h
      obtain ⟨b, middle', hb, hpure⟩ := Reader.run_bind_eq_ok h
      cases hpure
      obtain ⟨hgood₁, hinput⟩ := ih₁ ha
      obtain ⟨hgood₂, hmiddle⟩ := ih₂ hb
      refine ⟨⟨hgood₁, hgood₂⟩, ?_⟩
      rw [hinput, hmiddle, encode, List.append_assoc]
  | iso inner wrap unwrap hwrap hunwrap ih =>
      intro input value rest h
      obtain ⟨a, middle, ha, hpure⟩ := Reader.run_bind_eq_ok h
      cases hpure
      obtain ⟨hgood, hinput⟩ := ih ha
      rw [Within, encode, hunwrap]
      exact ⟨hgood, hinput⟩

/-! ## How long the bytes of a value can be -/

/-- The most bytes of a value that can be read. -/
def maxSize : {α : Type} → Codec α → Nat
  | _, bytes n => n
  | _, bool => 1
  | _, string => 8 + maxLength
  | _, seq element => 8 + maxLength * element.maxSize
  | _, option element => 1 + element.maxSize
  | _, vector n element => n * element.maxSize
  | _, pair first second => first.maxSize + second.maxSize
  | _, iso inner _ _ _ _ => inner.maxSize

theorem length_flatMap_le {α : Type} {write : α → List UInt8} {items : List α} {bound : Nat}
    (h : ∀ a ∈ items, (write a).length ≤ bound) :
    (items.flatMap write).length ≤ items.length * bound := by
  rw [List.length_flatMap]
  have hsum := List.sum_le_card_nsmul (items.map fun a => (write a).length) bound
    (by simpa using h)
  simpa using hsum

theorem length_encode_le {α : Type} (codec : Codec α) :
    ∀ value : α, codec.Within maxLength value → (codec.encode value).length ≤ codec.maxSize := by
  induction codec with
  | bytes n => intro value _; exact (length_littleEndian n value.toNat).le
  | bool => intro value _; exact Nat.le_refl 1
  | string =>
      intro value h
      rw [encode, List.length_append, encodeLength, length_littleEndian, length_toUTF8]
      exact Nat.add_le_add_left h 8
  | seq element ih =>
      intro value h
      have hitems := length_flatMap_le fun a ha => ih a (h.2 a (Array.mem_toList_iff.mp ha))
      rw [encode, List.length_append, encodeLength, length_littleEndian]
      rw [Array.length_toList] at hitems
      exact Nat.add_le_add_left (hitems.trans (Nat.mul_le_mul_right _ h.1)) 8
  | option element ih =>
      intro value h
      cases value with
      | none => exact Nat.le_add_right 1 _
      | some a =>
          rw [encode, List.length_cons, Nat.add_comm]
          exact Nat.add_le_add_left (ih a (h a rfl)) 1
  | vector n element ih =>
      intro value h
      have hitems := length_flatMap_le fun a ha => ih a (h a (Vector.mem_toList_iff.mp ha))
      rw [Vector.length_toList] at hitems
      exact hitems
  | pair first second ih₁ ih₂ =>
      rintro ⟨a, b⟩ h
      rw [encode, List.length_append]
      exact Nat.add_le_add (ih₁ a h.1) (ih₂ b h.2)
  | iso inner wrap unwrap hwrap hunwrap ih => intro value h; exact ih (unwrap value) h

/-! ## Reading and writing are inverse -/

/-- **Codecs are mutually inverse prefix codes.**  Whatever a codec is made of, a value whose texts
and sequences have a length of at most 16,000,000 is read back from its bytes, and what follows them
is left; what is read was written so; and the bytes of no such value begin those of another. -/
theorem mutually_inverse {α : Type} (codec : Codec α) :
    (∀ (value : α) (rest : List UInt8), codec.Within 16000000 value →
      codec.decode.run (codec.encode value ++ rest) = .ok (value, rest)) ∧
    (∀ (input : List UInt8) (value : α) (rest : List UInt8),
      codec.decode.run input = .ok (value, rest) →
      codec.Within 16000000 value ∧ input = codec.encode value ++ rest) ∧
    (∀ value other : α, codec.Within 16000000 value → codec.Within 16000000 other →
      codec.encode value <+: codec.encode other → value = other) := by
  refine ⟨fun value rest h => codec.reads_encode value h rest, fun _ _ _ h => written_of_decode _ h,
    ?_⟩
  rintro value other hvalue hother ⟨rest, hrest⟩
  -- the bytes of `other` are read as `value` with a rest, and as `other` without one
  have hread := codec.reads_encode value hvalue rest
  have hread' := codec.reads_encode other hother []
  rw [List.append_nil, ← hrest, hread] at hread'
  cases hread'
  rfl

/-- Optional texts with a number each, and any number of values that have no bytes. -/
def sample : Codec (Array (Option (String × Binary64)) × Array (Vector UInt8 0)) :=
  (seq (option (string.pair f64))).pair (seq (vector 0 u8))

/-- A text that is not ASCII, a NaN with a payload, and three elements without a byte. -/
theorem mutually_inverse_sample :
    let value := (#[none, some ("é", ⟨0xfff0000000000001⟩)], Array.replicate 3 #v[])
    sample.Within 16000000 value ∧
    sample.decode.run (sample.encode value ++ [1, 2]) = .ok (value, [1, 2]) := by
  intro value
  have hwithin : sample.Within 16000000 value := by
    refine ⟨⟨by decide, ?_⟩, by decide, fun _ _ _ _ => trivial⟩
    intro item hitem
    rcases List.mem_pair.mp (Array.mem_toList_iff.mpr hitem) with rfl | rfl
    · intro a ha
      cases ha
    · rintro _ ⟨⟩
      have htext : "é".utf8ByteSize ≤ 16000000 := by decide
      exact ⟨htext, trivial⟩
  exact ⟨hwithin, (mutually_inverse sample).1 value [1, 2] hwithin⟩

end Codec

end RegisterMachine
