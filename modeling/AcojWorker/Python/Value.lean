import AcojWorker.Python.Text
import Mathlib.Algebra.Order.Floor.Ring
import Mathlib.Data.Rat.Floor

/-!
# Python values of a decoded JSON document

The worker reads its requests as nested dictionaries, so every field has whatever type
the sender gave it: this is the universe of values that can occur there, with the
operations of the language the worker applies to them and the exceptions they raise.

A floating-point number is its exact value. A dictionary is an association list; a JSON
object has every key once, and the first entry of a key is the one that is read.
-/

namespace Python

inductive Value where
  | none
  | bool (b : Bool)
  | int (z : Int)
  | float (q : ℚ)
  | str (s : String)
  | list (xs : List Value)
  | dict (fields : List (String × Value))

inductive ExcKind where
  | keyError
  | typeError
  | attributeError
  | valueError
  | runtimeError
  | validationError
  | osError
  | fileNotFoundError
  | jsonDecodeError
  | other
deriving DecidableEq, Repr

/-- An exception and the text `str(exc)` gives for it. -/
structure Exc where
  kind : ExcKind
  message : String
deriving DecidableEq, Repr

/-- `OSError` and its subclass for missing files. -/
def Exc.isOSError (e : Exc) : Bool := e.kind = .osError ∨ e.kind = .fileNotFoundError

/-- Values as dictionary keys: equal numbers are one key, whatever their type. -/
inductive Key where
  | none
  | num (q : ℚ)
  | str (s : String)
deriving DecidableEq

/-- A sequence of two computations succeeds exactly when both do. -/
theorem bind_eq_ok {α β : Type} {x : Except Exc α} {f : α → Except Exc β} {b : β} :
    (x >>= f) = .ok b ↔ ∃ a, x = .ok a ∧ f a = .ok b := by
  cases x with
  | error e => simp [bind, Except.bind]
  | ok a => simp [bind, Except.bind]

/-- A successful loop has one value for each element. -/
theorem mapM_forall₂ {α β : Type} {f : α → Except Exc β} {xs : List α} {ys : List β}
    (h : xs.mapM f = .ok ys) : List.Forall₂ (fun x y => f x = .ok y) xs ys := by
  induction xs generalizing ys with
  | nil =>
      cases h
      exact .nil
  | cons x xs ih =>
      rw [List.mapM_cons] at h
      obtain ⟨y, hy, h⟩ := bind_eq_ok.mp h
      obtain ⟨rest, hrest, h⟩ := bind_eq_ok.mp h
      cases h
      exact .cons hy (ih hrest)

/-- A loop over changed results changes the results of the loop. -/
theorem mapM_exceptMap {α β γ : Type} (f : α → Except Exc β) (g : β → γ) (xs : List α) :
    xs.mapM (fun x => (f x).map g) = (xs.mapM f).map (List.map g) := by
  induction xs with
  | nil => rfl
  | cons x xs ih =>
      rw [List.mapM_cons, List.mapM_cons, ih]
      cases f x with
      | error e => rfl
      | ok y => cases xs.mapM f <;> rfl

/-- An element of the second list is related to one of the first list. -/
theorem forall₂_mem {α β : Type} {R : α → β → Prop} {xs : List α} {ys : List β}
    (pairs : List.Forall₂ R xs ys) : ∀ y ∈ ys, ∃ x ∈ xs, R x y := by
  induction pairs with
  | nil => exact nofun
  | cons hxy _ ih =>
      intro y hy
      rcases List.mem_cons.mp hy with rfl | hy
      · exact ⟨_, List.mem_cons_self .., hxy⟩
      · obtain ⟨x, hx, related⟩ := ih y hy
        exact ⟨x, List.mem_cons_of_mem _ hx, related⟩

/-- The values of a successful loop are those of its elements. -/
theorem mapM_ok_mem {α β : Type} {f : α → Except Exc β} {xs : List α} {ys : List β}
    (h : xs.mapM f = .ok ys) : ys.length = xs.length ∧ ∀ y ∈ ys, ∃ x ∈ xs, f x = .ok y :=
  ⟨(mapM_forall₂ h).length_eq.symm, forall₂_mem (mapM_forall₂ h)⟩

namespace Value

instance : Inhabited Value := ⟨.none⟩

/-- `bool(v)`. -/
def truthy : Value → Bool
  | .none => false
  | .bool b => b
  | .int z => z != 0
  | .float q => q != 0
  | .str s => s != ""
  | .list xs => !xs.isEmpty
  | .dict fields => !fields.isEmpty

/-- `a or b`. -/
def orElse (a b : Value) : Value := if a.truthy then a else b

/-- `v[name]`. -/
def item : Value → String → Except Exc Value
  | .dict fields, name =>
      match fields.lookup name with
      | some v => .ok v
      | Option.none => .error ⟨.keyError, s!"'{name}'"⟩
  | _, _ => .error ⟨.typeError, "object is not subscriptable by a string"⟩

/-- `v.get(name, default)`. -/
def get : Value → String → Value → Except Exc Value
  | .dict fields, name, default => .ok ((fields.lookup name).getD default)
  | _, _, _ => .error ⟨.attributeError, "object has no attribute 'get'"⟩

/-- The entries of a dictionary after `d[name] = v`. -/
def setField (name : String) (v : Value) : List (String × Value) → List (String × Value)
  | [] => [(name, v)]
  | kv :: fields => if kv.1 = name then (name, v) :: fields else kv :: setField name v fields

theorem lookup_cons_eq_ite (kv : String × Value) (fields : List (String × Value)) (name : String) :
    (kv :: fields).lookup name = if name = kv.1 then some kv.2 else fields.lookup name := by
  obtain ⟨key, v⟩ := kv
  rw [List.lookup_cons]
  by_cases same : name = key
  · rw [if_pos same, beq_iff_eq.mpr same]
  · rw [if_neg same, beq_eq_false_iff_ne.mpr same]

theorem lookup_setField (name other : String) (v : Value) (fields : List (String × Value)) :
    (setField name v fields).lookup other = if other = name then some v else fields.lookup other := by
  induction fields with
  | nil => exact lookup_cons_eq_ite ..
  | cons kv fields ih =>
      rw [setField]
      split
      · next here =>
        rw [lookup_cons_eq_ite, lookup_cons_eq_ite, here]
        split <;> rfl
      · next apart =>
        rw [lookup_cons_eq_ite, lookup_cons_eq_ite, ih]
        by_cases found : other = kv.1
        · rw [if_pos found, if_pos found, if_neg fun same => apart (found.symm.trans same)]
        · rw [if_neg found, if_neg found]

/-- `v[name] = value`. -/
def setItem : Value → String → Value → Except Exc Value
  | .dict fields, name, v => .ok (.dict (setField name v fields))
  | _, _, _ => .error ⟨.typeError, "object does not support item assignment"⟩

/-- `v.update(updates)`. -/
def update : Value → List (String × Value) → Except Exc Value
  | .dict fields, updates =>
      .ok (.dict (updates.foldl (fun fields kv => setField kv.1 kv.2 fields) fields))
  | _, _ => .error ⟨.attributeError, "object has no attribute 'update'"⟩

/-- The number an operand of an arithmetic operator or a comparison stands for. -/
def number : Value → Except Exc ℚ
  | .bool b => .ok (if b then 1 else 0)
  | .int z => .ok z
  | .float q => .ok q
  | _ => .error ⟨.typeError, "unsupported operand type(s)"⟩

/-- `v * n` for an integer `n`: sequences are repeated. -/
def mulInt : Value → Int → Except Exc Value
  | .bool b, n => .ok (.int (if b then n else 0))
  | .int z, n => .ok (.int (z * n))
  | .float q, n => .ok (.float (q * n))
  | .str s, n => .ok (.str (String.join (List.replicate n.toNat s)))
  | .list xs, n => .ok (.list (List.replicate n.toNat xs).flatten)
  | _, _ => .error ⟨.typeError, "unsupported operand type(s) for *"⟩

/-- Truncation toward zero, as `int` does it. -/
def truncate (q : ℚ) : Int := if 0 ≤ q then ⌊q⌋ else ⌈q⌉

/-- The digits of an integer literal: single underscores may separate digits. -/
def digits : List Char → Nat → Bool → Option Nat
  | [], acc, afterDigit => if afterDigit then some acc else Option.none
  | c :: cs, acc, afterDigit =>
      if c.isDigit then digits cs (10 * acc + (c.toNat - '0'.toNat)) true
      else if c = '_' && afterDigit && !cs.isEmpty then digits cs acc false
      else Option.none

/-- `int(text)`: a decimal literal with an optional sign, blanks around it ignored. -/
def parseInt (s : String) : Option Int :=
  match strip s.toList with
  | '-' :: cs => (digits cs 0 false).map fun n => -(n : Int)
  | '+' :: cs => (digits cs 0 false).map fun n => (n : Int)
  | cs => (digits cs 0 false).map fun n => (n : Int)

/-- `int(v)`. -/
def asInt : Value → Except Exc Int
  | .bool b => .ok (if b then 1 else 0)
  | .int z => .ok z
  | .float q => .ok (truncate q)
  | .str s =>
      match parseInt s with
      | some z => .ok z
      | Option.none => .error ⟨.valueError, "invalid literal for int() with base 10"⟩
  | _ => .error ⟨.typeError, "int() argument must be a string or a number"⟩

/-- The elements of a value that is iterated over. -/
def elements : Value → Except Exc (List Value)
  | .list xs => .ok xs
  | .dict fields => .ok (fields.map fun kv => .str kv.1)
  | .str s => .ok (s.toList.map fun c => .str (String.singleton c))
  | _ => .error ⟨.typeError, "object is not iterable"⟩

/-- The key a value is in a dictionary or a set. -/
def key : Value → Except Exc Key
  | .none => .ok .none
  | .bool b => .ok (.num (if b then 1 else 0))
  | .int z => .ok (.num z)
  | .float q => .ok (.num q)
  | .str s => .ok (.str s)
  | .list _ => .error ⟨.typeError, "unhashable type: 'list'"⟩
  | .dict _ => .error ⟨.typeError, "unhashable type: 'dict'"⟩

/-- The receiver of a method of `str`. -/
def text : Value → Except Exc String
  | .str s => .ok s
  | _ => .error ⟨.attributeError, "object has no such attribute"⟩

/-- `v == text`. -/
def isText : Value → String → Bool
  | .str s, t => s == t
  | _, _ => false

/-- `str(v)` and its use inside an f-string; containers and floats are abbreviated. -/
def display : Value → String
  | .none => "None"
  | .bool b => if b then "True" else "False"
  | .int z => toString z
  | .float q => toString q
  | .str s => s
  | .list _ => "[...]"
  | .dict _ => "..."

@[simp] theorem item_dict (name : String) (fields : List (String × Value)) :
    (dict fields).item name =
      match fields.lookup name with
      | some v => .ok v
      | Option.none => .error ⟨.keyError, s!"'{name}'"⟩ := rfl

@[simp] theorem get_dict (name : String) (default : Value) (fields : List (String × Value)) :
    (dict fields).get name default = .ok ((fields.lookup name).getD default) := rfl

end Value

end Python
