import Mathlib.Data.Int.Notation
import Mathlib.Data.List.Basic

/-!
# The text of a JSON value

JSON values as a program in Python holds them, and the text that `json.dumps` gives for them with
its default options: one line of ASCII characters.
-/
namespace NumentaApps.JsonText

/-- The `repr` of a finite float. -/
structure FloatText where
  text : String
  characters : text.toList.all fun c => c.isDigit || "+-.e".toList.contains c

/-- A JSON value, a dictionary by its items in the order in which it gives them. -/
inductive Value where
  | none
  | bool (b : Bool)
  | int (n : ℤ)
  | float (x : FloatText)
  | string (text : String)
  | list (items : List Value)
  | dict (items : List (String × Value))

/-- The four digits of `\u%04x`. -/
def unicodeDigits (n : ℕ) : List Char :=
  [n / 4096, n / 256, n / 16, n].map fun digit => (digit % 16).digitChar

/-- `encode_basestring_ascii`, for one character. -/
def escape (c : Char) : List Char :=
  if c = '\\' then ['\\', '\\']
  else if c = '"' then ['\\', '"']
  else if c = '\x08' then ['\\', 'b']
  else if c = '\x0c' then ['\\', 'f']
  else if c = '\n' then ['\\', 'n']
  else if c = '\r' then ['\\', 'r']
  else if c = '\t' then ['\\', 't']
  else if ' ' ≤ c ∧ c ≤ '~' then [c]
  else if c.toNat < 0x10000 then ['\\', 'u'] ++ unicodeDigits c.toNat
  else
    -- a surrogate pair
    ['\\', 'u'] ++ unicodeDigits (0xd800 + (c.toNat - 0x10000) / 0x400 % 0x400) ++
      (['\\', 'u'] ++ unicodeDigits (0xdc00 + (c.toNat - 0x10000) % 0x400))

def quoted (text : String) : List Char := '"' :: (text.toList.flatMap escape ++ ['"'])

mutual

def Value.text : Value → List Char
  | .none => "null".toList
  | .bool true => "true".toList
  | .bool false => "false".toList
  | .int n => (toString n).toList
  | .float x => x.text.toList
  | .string s => quoted s
  | .list [] => "[]".toList
  | .list (item :: items) => '[' :: (item.text ++ (itemsText items ++ [']']))
  | .dict [] => "\x7b\x7d".toList
  | .dict ((key, value) :: items) =>
      '{' :: (quoted key ++ (": ".toList ++ (value.text ++ (fieldsText items ++ ['}']))))

def itemsText : List Value → List Char
  | [] => []
  | item :: items => ", ".toList ++ (item.text ++ itemsText items)

def fieldsText : List (String × Value) → List Char
  | [] => []
  | (key, value) :: items =>
      ", ".toList ++ (quoted key ++ (": ".toList ++ (value.text ++ fieldsText items)))

end

def dumps (value : Value) : String := String.ofList value.text

/-! ## It has no newline -/

theorem newline_notMem_unicodeDigits (n : ℕ) : '\n' ∉ unicodeDigits n := by
  have hdigit : ∀ k < 16, Nat.digitChar k ≠ '\n' := by decide
  intro h
  obtain ⟨digit, _, hdigit'⟩ := List.mem_map.mp h
  exact hdigit (digit % 16) (Nat.mod_lt digit (by omega)) hdigit'

theorem newline_notMem_escape (c : Char) : '\n' ∉ escape c := by
  have hdigits := newline_notMem_unicodeDigits
  by_cases hnewline : c = '\n'
  · rw [hnewline]
    decide
  · grind [escape]

theorem newline_notMem_quoted (text : String) : '\n' ∉ quoted text := by
  have hescape : '\n' ∉ text.toList.flatMap escape := by
    intro h
    obtain ⟨c, _, hc⟩ := List.mem_flatMap.mp h
    exact newline_notMem_escape c hc
  simpa [quoted] using hescape

theorem newline_notMem_nat (n : ℕ) : '\n' ∉ n.repr.toList := by
  rw [Nat.toList_repr]
  intro h
  exact absurd (Nat.isDigit_of_mem_toDigits (by decide) (by decide) h) (by decide)

theorem newline_notMem_int (n : ℤ) : '\n' ∉ (toString n).toList := by
  cases n with
  | ofNat n => exact newline_notMem_nat n
  | negSucc n =>
    have h := newline_notMem_nat (n + 1)
    refine (?_ : '\n' ∉ ("-" ++ (n + 1).repr).toList)
    simpa using h

theorem newline_notMem_float (x : FloatText) : '\n' ∉ x.text.toList := by
  intro h
  exact absurd (List.all_eq_true.mp x.characters _ h) (by decide)

mutual

theorem newline_notMem_text : ∀ value : Value, '\n' ∉ value.text
  | .none => by decide
  | .bool true => by decide
  | .bool false => by decide
  | .int n => newline_notMem_int n
  | .float x => newline_notMem_float x
  | .string s => newline_notMem_quoted s
  | .list [] => by decide
  | .list (item :: items) => by
    have hitem := newline_notMem_text item
    have hitems := newline_notMem_itemsText items
    simp [Value.text, hitem, hitems]
  | .dict [] => by decide
  | .dict ((key, value) :: items) => by
    have hkey := newline_notMem_quoted key
    have hvalue := newline_notMem_text value
    have hitems := newline_notMem_fieldsText items
    simp [Value.text, hkey, hvalue, hitems]

theorem newline_notMem_itemsText : ∀ items : List Value, '\n' ∉ itemsText items
  | [] => by simp [itemsText]
  | item :: items => by
    have hitem := newline_notMem_text item
    have hitems := newline_notMem_itemsText items
    simp [itemsText, hitem, hitems]

theorem newline_notMem_fieldsText : ∀ items : List (String × Value), '\n' ∉ fieldsText items
  | [] => by simp [fieldsText]
  | (key, value) :: items => by
    have hkey := newline_notMem_quoted key
    have hvalue := newline_notMem_text value
    have hitems := newline_notMem_fieldsText items
    simp [fieldsText, hkey, hvalue, hitems]

end

theorem newline_notMem_dumps (value : Value) : '\n' ∉ (dumps value).toList := by
  rw [dumps, String.toList_ofList]
  exact newline_notMem_text value

example : dumps (.list [.int (-3), .string "a\n", .dict [("b", .none)]]) =
    "[-3, \"a\\n\", \x7b\"b\": null\x7d]" := by
  decide

end NumentaApps.JsonText
