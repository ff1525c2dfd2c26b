import CommonCode.Lib.CString

/-!
# Trees of cJSON and their texts

The trees of `cJSON.c`, the functions that build them and the printer.  A node
has the fields that its type uses: the list of the children is the chain from
`child` along `next`, and in an object every child comes with its `string`.
Strings are their bytes without the terminator, and allocation succeeds, so
the sizes that the source computes for it do not appear.

The arithmetic of `double` is a parameter, together with what the program uses
of the mathematics library and with the conversions of `sprintf` for it.
-/

namespace CommonCode.Json

open CommonCode.Lib.Bits
open CommonCode.Lib.CString

/-! ## Numbers -/

/-- The conversions `"%.0f"`, `"%e"` and `"%f"`. -/
inductive Conversion where
  | integral
  | exponent
  | fixed

/-- The operations on `double`. -/
structure Arithmetic (Double : Type) where
  ofRat : ℚ → Double
  add : Double → Double → Double
  sub : Double → Double → Double
  mul : Double → Double → Double
  pow : Double → Double → Double
  fabs : Double → Double
  floor : Double → Double
  eq : Double → Double → Bool
  le : Double → Double → Bool
  lt : Double → Double → Bool
  toInt : Double → BitVec 32
  sprintf : Conversion → Double → List Byte

/-- The conversion of an integer. -/
def Arithmetic.ofInt {Double : Type} (arithmetic : Arithmetic Double)
    (value : Int) : Double :=
  arithmetic.ofRat value

/-- The integers that have an exact representation together with all smaller
ones. -/
def Small (value : Int) : Prop := value.natAbs ≤ 2 ^ 53

/--
What the standard for the arithmetic promises about integers: a result that
can be represented is exact.  A product with the value zero may be the negative
zero.
-/
structure Arithmetic.Exact {Double : Type}
    (arithmetic : Arithmetic Double) : Prop where
  add :
    ∀ a b : Int, Small a → Small b → Small (a + b) →
      arithmetic.add (arithmetic.ofInt a) (arithmetic.ofInt b) =
        arithmetic.ofInt (a + b)
  sub :
    ∀ a b : Int, Small a → Small b → Small (a - b) →
      arithmetic.sub (arithmetic.ofInt a) (arithmetic.ofInt b) =
        arithmetic.ofInt (a - b)
  mul :
    ∀ a b : Int, Small a → Small b → Small (a * b) →
      (0 ≤ a ∧ 0 ≤ b ∨ a * b ≠ 0) →
      arithmetic.mul (arithmetic.ofInt a) (arithmetic.ofInt b) =
        arithmetic.ofInt (a * b)
  pow_zero :
    arithmetic.pow (arithmetic.ofInt 10) (arithmetic.ofInt 0) =
      arithmetic.ofInt 1
  fabs_zero : arithmetic.fabs (arithmetic.ofInt 0) = arithmetic.ofInt 0
  eq_zero :
    ∀ a : Int, Small a →
      arithmetic.eq (arithmetic.ofInt a) (arithmetic.ofInt 0) =
        decide (a = 0)
  le :
    ∀ a b : Int, Small a → Small b →
      arithmetic.le (arithmetic.ofInt a) (arithmetic.ofInt b) =
        decide (a ≤ b)
  zero_le_epsilon :
    arithmetic.le (arithmetic.ofInt 0) (arithmetic.ofRat (1 / 2 ^ 52)) = true
  toInt :
    ∀ value : BitVec 32,
      arithmetic.toInt (arithmetic.ofInt value.toInt) = value

theorem small_toInt (value : BitVec 32) : Small value.toInt := by
  have upper := value.toInt_lt
  have lower := value.le_toInt
  rw [Small]
  omega

/-! ## Trees -/

/-- A node with its children. -/
inductive CJson (Double : Type) where
  | null
  | bool (value : Bool)
  | number (valuedouble : Double) (valueint : BitVec 32)
  | string (valuestring : List Byte)
  | array (child : List (CJson Double))
  | object (child : List (List Byte × CJson Double))

variable {Double : Type}

/-! ## Building trees -/

def cJsonCreateString (string : List Byte) : CJson Double := .string string

/-- `cJSON_CreateNumber` of an `int`. -/
def cJsonCreateNumber (arithmetic : Arithmetic Double) (num : BitVec 32) :
    CJson Double :=
  let value := arithmetic.ofInt num.toInt
  .number value (arithmetic.toInt value)

def cJsonCreateArray : CJson Double := .array []

def cJsonCreateObject : CJson Double := .object []

/-- The item becomes the last child of an array. -/
def cJsonAddItemToArray (array item : CJson Double) : CJson Double :=
  match array with
  | .array child => .array (child ++ [item])
  | other => other

/-- The item becomes the last child of an object. -/
def cJsonAddItemToObject (object : CJson Double) (string : String)
    (item : CJson Double) : CJson Double :=
  match object with
  | .object child => .object (child ++ [(ascii string, item)])
  | other => other

def cJsonAddStringToObject (object : CJson Double) (name : String)
    (string : List Byte) : CJson Double :=
  cJsonAddItemToObject object name (cJsonCreateString string)

def cJsonAddNumberToObject (arithmetic : Arithmetic Double)
    (object : CJson Double) (name : String) (num : BitVec 32) :
    CJson Double :=
  cJsonAddItemToObject object name (cJsonCreateNumber arithmetic num)

/-! ## Texts of strings -/

/-- A byte that makes `print_string_ptr` take its second path; `char` is
signed. -/
def flagged (byte : Byte) : Bool :=
  (0 < byte.toInt && byte.toInt < 32) || byte = char '"' || byte = char '\\'

/-- A digit of the conversion `%x`. -/
def hexDigit (digit : Nat) : Byte :=
  BitVec.ofNat 8 (if digit < 10 then 48 + digit else 87 + digit)

/-- The conversion `%04x` of a byte. -/
def hex4 (token : Byte) : List Byte :=
  [hexDigit (token.toNat / 4096 % 16), hexDigit (token.toNat / 256 % 16),
    hexDigit (token.toNat / 16 % 16), hexDigit (token.toNat % 16)]

/-- The text of one byte of a string. -/
def escape (token : Byte) : List Byte :=
  if 31 < token.toNat && token ≠ char '"' && token ≠ char '\\' then [token]
  else
    char '\\' ::
      if token = char '\\' then [char '\\']
      else if token = char '"' then [char '"']
      else if token = 8 then [char 'b']
      else if token = 12 then [char 'f']
      else if token = 10 then [char 'n']
      else if token = 13 then [char 'r']
      else if token = 9 then [char 't']
      else char 'u' :: hex4 token

def printStringPtr (str : List Byte) : List Byte :=
  if str.any flagged then
    char '"' :: (str.flatMap escape ++ [char '"'])
  else char '"' :: (str ++ [char '"'])

/-! ## Texts of trees -/

def printNumber (arithmetic : Arithmetic Double) (valuedouble : Double)
    (valueint : BitVec 32) : List Byte :=
  let d := valuedouble
  let epsilon := arithmetic.ofRat (1 / 2 ^ 52)
  if arithmetic.eq d (arithmetic.ofInt 0) then ascii "0"
  else if
      arithmetic.le
        (arithmetic.fabs
          (arithmetic.sub (arithmetic.ofInt valueint.toInt) d)) epsilon &&
      arithmetic.le d (arithmetic.ofInt (2 ^ 31 - 1)) &&
      arithmetic.le (arithmetic.ofInt (-2 ^ 31)) d then
    formatInt valueint.toInt
  else if
      arithmetic.le
        (arithmetic.fabs (arithmetic.sub (arithmetic.floor d) d)) epsilon &&
      arithmetic.lt (arithmetic.fabs d) (arithmetic.ofRat (10 ^ 60)) then
    arithmetic.sprintf .integral d
  else if
      arithmetic.lt (arithmetic.fabs d) (arithmetic.ofRat (1 / 10 ^ 6)) ||
      arithmetic.lt (arithmetic.ofRat (10 ^ 9)) (arithmetic.fabs d) then
    arithmetic.sprintf .exponent d
  else arithmetic.sprintf .fixed d

/-- Bytes that only the formatted text has. -/
def format (fmt : Bool) (bytes : List Byte) : List Byte :=
  if fmt then bytes else []

def tabs (count : Nat) : List Byte := List.replicate count (char '\t')

/-- The entries of an array, with separators. -/
def composeItems (fmt : Bool) : List (List Byte) → List Byte
  | [] => []
  | entry :: entries =>
      entry ++
        (if entries = [] then [] else char ',' :: format fmt [char ' ']) ++
        composeItems fmt entries

/-- The text of an array from the texts of its entries. -/
def printArray (fmt : Bool) (entries : List (List Byte)) : List Byte :=
  if entries = [] then ascii "[]"
  else char '[' :: (composeItems fmt entries ++ [char ']'])

/-- The lines of an object from the texts of the names and the entries. -/
def composeMembers (fmt : Bool) (depth : Nat) :
    List (List Byte × List Byte) → List Byte
  | [] => []
  | (name, entry) :: entries =>
      format fmt (tabs depth) ++ name ++ char ':' :: format fmt [char '\t'] ++
        entry ++ (if entries = [] then [] else [char ',']) ++
        format fmt [char '\n'] ++ composeMembers fmt depth entries

/-- The text of an object at a depth; the entries are one deeper. -/
def printObject (fmt : Bool) (depth : Nat)
    (entries : List (List Byte × List Byte)) : List Byte :=
  if entries = [] then
    char '{' :: format fmt (char '\n' :: tabs (depth - 1)) ++ [char '}']
  else
    char '{' :: format fmt [char '\n'] ++
      composeMembers fmt (depth + 1) entries ++ format fmt (tabs depth) ++
      [char '}']

section Printer

variable (arithmetic : Arithmetic Double) (fmt : Bool)

mutual

def printValue (depth : Nat) : CJson Double → List Byte
  | .null => ascii "null"
  | .bool false => ascii "false"
  | .bool true => ascii "true"
  | .number valuedouble valueint =>
      printNumber arithmetic valuedouble valueint
  | .string valuestring => printStringPtr valuestring
  | .array child => printArray fmt (printItems (depth + 1) child)
  | .object child => printObject fmt depth (printMembers (depth + 1) child)

/-- The texts of the items of an array. -/
def printItems (depth : Nat) : List (CJson Double) → List (List Byte)
  | [] => []
  | item :: child => printValue depth item :: printItems depth child

/-- The texts of the names and the values in an object. -/
def printMembers (depth : Nat) :
    List (List Byte × CJson Double) → List (List Byte × List Byte)
  | [] => []
  | (string, item) :: child =>
      (printStringPtr string, printValue depth item) ::
        printMembers depth child

end

theorem printItems_eq_map (depth : Nat) (child : List (CJson Double)) :
    printItems arithmetic fmt depth child =
      child.map (printValue arithmetic fmt depth) := by
  induction child with
  | nil => rfl
  | cons item child ih => rw [printItems, ih, List.map_cons]

theorem printMembers_eq_map (depth : Nat)
    (child : List (List Byte × CJson Double)) :
    printMembers arithmetic fmt depth child =
      child.map fun member =>
        (printStringPtr member.1,
          printValue arithmetic fmt depth member.2) := by
  induction child with
  | nil => rfl
  | cons member child ih => rw [printMembers, ih, List.map_cons]

end Printer

def cJsonPrint (arithmetic : Arithmetic Double) (item : CJson Double) :
    List Byte :=
  printValue arithmetic true 0 item

end CommonCode.Json
