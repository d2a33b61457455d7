import RecordDecoding.Json.Basic
import RecordDecoding.Proofs.Number.Literal
import RecordDecoding.Proofs.Text.Bytes
import RecordDecoding.Text.Hex

namespace RecordDecoding.Json

def Blank (bytes : List UInt8) : Prop :=
  ∀ b ∈ bytes, Ascii.isBlank b

theorem blank_nil : Blank [] :=
  List.forall_mem_nil _

-- Four hexadecimal digits for a number.
def UnitText (n : Nat) (bytes : List UInt8) : Prop :=
  ∃ a b c d, Hex.read? [a, b, c, d] = some n ∧ bytes = [a, b, c, d].map ascii

-- The letters that stand for a character after a backslash.
def shortEscapes : List (Char × Char) :=
  [('"', '"'), ('\\', '\\'), ('/', '/'), ('b', '\x08'), ('f', '\x0c'), ('n', '\n'), ('r', '\x0d'),
    ('t', '\t')]

inductive EscapeText : Char → List UInt8 → Prop
  | short {letter c} : (letter, c) ∈ shortEscapes → EscapeText c [ascii '\\', ascii letter]
  | unit {c digits} : UnitText c.toNat digits → EscapeText c (ascii '\\' :: ascii 'u' :: digits)
  -- A high and a low surrogate.
  | pair {c high low digits digits'} : UnitText (0xD800 + high) digits → high < 0x400 →
    UnitText (0xDC00 + low) digits' → low < 0x400 → c.toNat = 0x10000 + high * 0x400 + low →
    EscapeText c (ascii '\\' :: ascii 'u' :: (digits ++ ascii '\\' :: ascii 'u' :: digits'))

-- The characters that may stand for themselves.
def IsRaw (c : Char) : Prop :=
  c ≠ '"' ∧ c ≠ '\\' ∧ 0x20 ≤ c.toNat

instance {c : Char} : Decidable (IsRaw c) :=
  inferInstanceAs (Decidable (_ ∧ _ ∧ _))

inductive CharText : Char → List UInt8 → Prop
  | raw {c} : IsRaw c → CharText c (String.utf8EncodeChar c)
  | escape {c bytes} : EscapeText c bytes → CharText c bytes

inductive CharsText : List Char → List UInt8 → Prop
  | nil : CharsText [] []
  | cons {c cs bytes more} : CharText c bytes → CharsText cs more →
    CharsText (c :: cs) (bytes ++ more)

inductive StringText (s : String) : List UInt8 → Prop
  | quoted {bytes} : CharsText s.toList bytes → StringText s (ascii '"' :: (bytes ++ [ascii '"']))

-- A word or a number.
def plain (cs : List Char) : List UInt8 :=
  cs.map ascii

@[simp] theorem plain_cons (c : Char) (cs : List Char) : plain (c :: cs) = ascii c :: plain cs :=
  rfl

@[simp] theorem plain_append (cs ds : List Char) : plain (cs ++ ds) = plain cs ++ plain ds :=
  List.map_append

@[simp] theorem length_plain (cs : List Char) : (plain cs).length = cs.length :=
  List.length_map _

-- Without escapes.
theorem StringText.plain (cs : List Char) (h : cs.all fun c => IsRaw c ∧ c.toNat < 128) :
    StringText (.ofList cs) (ascii '"' :: (Json.plain cs ++ [ascii '"'])) := by
  refine .quoted ?_
  rw [String.toList_ofList]
  rw [List.all_eq_true] at h
  induction cs
  case nil => exact .nil
  case cons c cs ih =>
    have ⟨raw, small⟩ := of_decide_eq_true (h c (List.mem_cons_self ..))
    have text : CharText c [ascii c] := Utf8.encodeChar_ascii small ▸ .raw raw
    exact .cons text (ih fun c hc => h c (List.mem_cons_of_mem _ hc))

mutual

inductive ValueText : Json → List UInt8 → Prop
  | null : ValueText null (plain "null".toList)
  | true : ValueText (bool .true) (plain "true".toList)
  | false : ValueText (bool .false) (plain "false".toList)
  | number {literal : String} : Numeral.IsNumber literal.toList →
    ValueText (number literal) (plain literal.toList)
  | string {s bytes} : StringText s bytes → ValueText (string s) bytes
  | emptyArray {bytes} : Blank bytes → ValueText (array []) (ascii '[' :: (bytes ++ [ascii ']']))
  | array {items bytes} : ItemsText items bytes →
    ValueText (array items) (ascii '[' :: (bytes ++ [ascii ']']))
  | emptyObject {bytes} : Blank bytes →
    ValueText (object []) (ascii '\x7b' :: (bytes ++ [ascii '\x7d']))
  | object {members bytes} : MembersText members bytes →
    ValueText (object members) (ascii '\x7b' :: (bytes ++ [ascii '\x7d']))

-- Items with commas between them, and blanks around each.
inductive ItemsText : List Json → List UInt8 → Prop
  | one {j before bytes after} : Blank before → ValueText j bytes → Blank after →
    ItemsText [j] (before ++ (bytes ++ after))
  | cons {j items before bytes after more} : Blank before → ValueText j bytes → Blank after →
    ItemsText items more →
    ItemsText (j :: items) (before ++ (bytes ++ (after ++ ascii ',' :: more)))

inductive MembersText : List (String × Json) → List UInt8 → Prop
  | one {name j bytes after} : MemberText name j bytes → Blank after →
    MembersText [(name, j)] (bytes ++ after)
  | cons {name j members bytes after more} : MemberText name j bytes → Blank after →
    MembersText members more →
    MembersText ((name, j) :: members) (bytes ++ (after ++ ascii ',' :: more))

inductive MemberText : String → Json → List UInt8 → Prop
  | of {name j before bytes after before' bytes'} : Blank before → StringText name bytes →
    Blank after → Blank before' → ValueText j bytes' →
    MemberText name j (before ++ (bytes ++ (after ++ ascii ':' :: (before' ++ bytes'))))

end

-- A value and nothing else but blanks.
def IsText (j : Json) (bytes : List UInt8) : Prop :=
  ∃ before text after, Blank before ∧ ValueText j text ∧ Blank after ∧
    bytes = before ++ (text ++ after)

end RecordDecoding.Json
