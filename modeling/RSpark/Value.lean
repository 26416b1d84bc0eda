import RSpark.FloatText

/- Nullable values with their casts and comparison, and the errors of the engine.
   A panic unwinds past every handler, so it is kept apart from the returned errors. -/
namespace RSparkValue
open FloatText

inductive Error where
  | io (message : String)
  | parse (message : String)
  | type (message : String)
  | schema (message : String)
  | execution (message : String)
  | storage (message : String)
  | cluster (message : String)
  | sql (message : String)
  | serde (message : String)
  | csv (message : String)
  | network (message : String)
  | notFound (message : String)
  | invalidState (message : String)
  deriving DecidableEq, Repr

def Error.display : Error → String
  | .io m => s!"io error: {m}"
  | .parse m => s!"parse error: {m}"
  | .type m => s!"type error: {m}"
  | .schema m => s!"schema error: {m}"
  | .execution m => s!"execution error: {m}"
  | .storage m => s!"storage error: {m}"
  | .cluster m => s!"cluster error: {m}"
  | .sql m => s!"sql error: {m}"
  | .serde m => s!"serde error: {m}"
  | .csv m => s!"csv error: {m}"
  | .network m => s!"network error: {m}"
  | .notFound m => s!"not found: {m}"
  | .invalidState m => s!"invalid state: {m}"

inductive Fault where
  | error (e : Error)
  | abort (message : String)
  deriving DecidableEq, Repr

abbrev Result := Except Fault

def err {α : Type} (e : Error) : Result α := .error (.error e)
def abort {α : Type} (message : String) : Result α := .error (.abort message)

@[simp] theorem ok_bind {α β : Type} (a : α) (f : α → Result β) :
    ((Except.ok a : Result α) >>= f) = f a := rfl

@[simp] theorem error_bind {α β : Type} (e : Fault) (f : α → Result β) :
    ((Except.error e : Result α) >>= f) = .error e := rfl

@[simp] theorem err_bind {α β : Type} (e : Error) (f : α → Result β) :
    ((err e : Result α) >>= f) = err e := rfl

theorem bind_eq_ok {α β : Type} {x : Result α} {f : α → Result β} {b : β} :
    (x >>= f) = .ok b ↔ ∃ a, x = .ok a ∧ f a = .ok b := by
  cases x with
  | error e => simp
  | ok a => simp

theorem check_bind_eq_ok {β : Type} {x : Result Unit} {y : Result β} {b : β} :
    (x >>= fun _ => y) = .ok b ↔ x = .ok () ∧ y = .ok b := by
  rw [bind_eq_ok]
  exact ⟨fun ⟨_, hx, hy⟩ => ⟨hx, hy⟩, fun ⟨hx, hy⟩ => ⟨(), hx, hy⟩⟩

@[simp] theorem err_ne_ok {α : Type} (e : Error) (a : α) : (err e : Result α) ≠ .ok a := by
  simp [err]

/-- `ok_or_else(..)?` -/
def orError {α : Type} (x : Option α) (e : Error) : Result α :=
  match x with
  | some a => .ok a
  | none => err e

theorem orError_eq_ok {α : Type} {x : Option α} {e : Error} {a : α} :
    orError x e = .ok a ↔ x = some a := by
  cases x <;> simp [orError]

inductive Value where
  | null
  | boolean (v : Bool)
  | int32 (v : Int32)
  | int64 (v : Int64)
  | float32 (v : Float32)
  | float64 (v : Float)
  | string (v : String)
  deriving DecidableEq

/-- The derived PartialEq: values of different variants differ, NaN differs from itself. -/
def Value.partialEq : Value → Value → Bool
  | .null, .null => true
  | .boolean a, .boolean b => a = b
  | .int32 a, .int32 b => a = b
  | .int64 a, .int64 b => a = b
  | .float32 a, .float32 b => a == b
  | .float64 a, .float64 b => a == b
  | .string a, .string b => a = b
  | _, _ => false

def Value.isNull : Value → Bool
  | .null => true
  | _ => false

def Value.dataTypeName : Value → String
  | .null => "null"
  | .boolean _ => "boolean"
  | .int32 _ => "int"
  | .int64 _ => "bigint"
  | .float32 _ => "float"
  | .float64 _ => "double"
  | .string _ => "string"

def boolToString (b : Bool) : String := if b then "true" else "false"
def i32ToString (v : Int32) : String := toString v.toInt
def i64ToString (v : Int64) : String := toString v.toInt

def Value.castToString : Value → String
  | .null => "null"
  | .boolean v => boolToString v
  | .int32 v => i32ToString v
  | .int64 v => i64ToString v
  | .float32 v => print32 v
  | .float64 v => print64 v
  | .string v => v

def i32AsF64 (v : Int32) : Float := .ofModel (.ofInt32 v)
def i64AsF64 (v : Int64) : Float := .ofModel (.ofInt64 v)
def i32AsI64 (v : Int32) : Int64 := .ofInt v.toInt
def f32AsI64 (v : Float32) : Int64 := v.toModel.toInt64
def f64AsI64 (v : Float) : Int64 := v.toModel.toInt64

/-- `str::parse` for a signed integer type with the given bounds. -/
def parseInt (low high : Int) (s : String) : Option Int :=
  let (negative, cs) := takeSign s.toList
  match takeDigits cs 0 0 with
  | (_, 0, _) => none
  | (n, _, []) =>
      let v : Int := if negative then -n else n
      if low ≤ v ∧ v ≤ high then some v else none
  | (_, _, _ :: _) => none

def parseI64 (s : String) : Option Int64 :=
  (parseInt (-9223372036854775808) 9223372036854775807 s).map Int64.ofInt

def Value.castToF64 : Value → Option Float
  | .null => none
  | .boolean b => some (if b then scientific64 1 0 else scientific64 0 0)
  | .int32 v => some (i32AsF64 v)
  | .int64 v => some (i64AsF64 v)
  | .float32 v => some (widen v)
  | .float64 v => some v
  | .string s => parse64 s

def Value.castToI64 : Value → Option Int64
  | .null => none
  | .boolean b => some (if b then 1 else 0)
  | .int32 v => some (i32AsI64 v)
  | .int64 v => some v
  | .float32 v => some (f32AsI64 v)
  | .float64 v => some (f64AsI64 v)
  | .string s => parseI64 s

/-- `i32::try_from` -/
def i64TryI32 (v : Int64) : Option Int32 :=
  if -2147483648 ≤ v.toInt ∧ v.toInt ≤ 2147483647 then some (.ofInt v.toInt) else none

def Value.castToBool : Value → Option Bool
  | .null => none
  | .boolean b => some b
  | .int32 v => some (v ≠ 0)
  | .int64 v => some (v ≠ 0)
  | .float32 v => some (v != scientific32 0 0)
  | .float64 v => some (v != scientific64 0 0)
  | .string s =>
      if String.ofList (lowerAscii s.toList) ∈ ["true", "t", "1", "yes", "y"] then some true
      else if String.ofList (lowerAscii s.toList) ∈ ["false", "f", "0", "no", "n"] then some false
      else none

def cannotCompareNaN (a b : String) : Error :=
  .type s!"cannot compare NaN floats {a} and {b}"

def cmpF64 (a b : Float) (aText bText : String) : Result Ordering :=
  orError (a.toModel.compare b.toModel) (cannotCompareNaN aText bText)

def Value.tryCmp : Value → Value → Result Ordering
  | .null, .null => .ok .eq
  | .null, _ => .ok .lt
  | _, .null => .ok .gt
  | .boolean a, .boolean b => .ok (compare a b)
  | .int32 a, .int32 b => .ok (compare a.toInt b.toInt)
  | .int64 a, .int64 b => .ok (compare a.toInt b.toInt)
  | .float32 a, .float32 b =>
      orError (a.toModel.compare b.toModel) (cannotCompareNaN (print32 a) (print32 b))
  | .float64 a, .float64 b => cmpF64 a b (print64 a) (print64 b)
  | .string a, .string b => .ok (compare a b)
  | .int32 a, .int64 b => .ok (compare (i32AsI64 a).toInt b.toInt)
  | .int64 a, .int32 b => .ok (compare a.toInt (i32AsI64 b).toInt)
  | .int32 a, .float64 b => cmpF64 (i32AsF64 a) b (i32ToString a) (print64 b)
  | .float64 a, .int32 b => cmpF64 a (i32AsF64 b) (print64 a) (i32ToString b)
  | .int64 a, .float64 b => cmpF64 (i64AsF64 a) b (i64ToString a) (print64 b)
  | .float64 a, .int64 b => cmpF64 a (i64AsF64 b) (print64 a) (i64ToString b)
  | .float32 a, .float64 b => cmpF64 (widen a) b (print32 a) (print64 b)
  | .float64 a, .float32 b => cmpF64 a (widen b) (print64 a) (print32 b)
  | a, b => err (.type s!"cannot compare {a.dataTypeName} and {b.dataTypeName}")

@[simp] theorem isNull_null : Value.null.isNull = true := rfl

theorem isNull_iff (v : Value) : v.isNull = true ↔ v = .null := by
  cases v <;> simp [Value.isNull]

theorem not_isNull {v : Value} (shown : v ≠ .null) : v.isNull = false := by
  rw [Bool.eq_false_iff]
  exact fun isNull => shown ((isNull_iff v).mp isNull)

theorem float_beq_of_compare {a b : Float} {o : Ordering}
    (h : a.toModel.compare b.toModel = some o) : (a == b) = decide (o = .eq) := by
  show (a.toModel.unpack.compare b.toModel.unpack == some .eq) = _
  rw [show a.toModel.unpack.compare b.toModel.unpack = some o from h]
  cases o <;> rfl

theorem float32_beq_of_compare {a b : Float32} {o : Ordering}
    (h : a.toModel.compare b.toModel = some o) : (a == b) = decide (o = .eq) := by
  show (a.toModel.unpack.compare b.toModel.unpack == some .eq) = _
  rw [show a.toModel.unpack.compare b.toModel.unpack = some o from h]
  cases o <;> rfl

theorem partialEq_of_tryCmp {a b : Value} {o : Ordering}
    (sameType : a.dataTypeName = b.dataTypeName) (h : a.tryCmp b = .ok o) :
    a.partialEq b = decide (o = .eq) := by
  cases a <;> cases b <;> simp only [Value.dataTypeName, String.reduceEq] at sameType
  case null =>
    obtain rfl := Except.ok.inj h
    rfl
  case boolean a b =>
    obtain rfl := Except.ok.inj h
    cases a <;> cases b <;> rfl
  case int32 a b =>
    obtain rfl := Except.ok.inj h
    simp [Value.partialEq, Int32.toInt_inj]
  case int64 a b =>
    obtain rfl := Except.ok.inj h
    simp [Value.partialEq, Int64.toInt_inj]
  case float32 a b => exact float32_beq_of_compare (orError_eq_ok.mp h)
  case float64 a b => exact float_beq_of_compare (orError_eq_ok.mp h)
  case string a b =>
    obtain rfl := Except.ok.inj h
    simp [Value.partialEq]

def intOrNull : Value → Bool
  | .null | .int64 _ => true
  | _ => false

def boolOrNull : Value → Bool
  | .null | .boolean _ => true
  | _ => false

end RSparkValue
