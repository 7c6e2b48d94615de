import AcojWorker.Python.Value
import Mathlib.Data.List.Forall2

/-!
# Data models with defaults and lax coercion

A model is a list of declared fields, each with a check that coerces a value or rejects
it, and possibly a default. Validating a dictionary replaces every declared value by its
coerced one, fills in the defaults of the missing ones and keeps what is not declared.
Coerced values and defaults pass their own checks unchanged, so validating twice is
validating once.
-/

namespace Python

/-- How texts are read as numbers and truth values in lax mode. -/
structure Lax where
  intOfText : String → Option Int
  floatOfText : String → Option ℚ
  boolOfText : String → Option Bool

/-- The coerced value, or nothing for a value that is rejected. -/
abbrev Check : Type := Value → Option Value

namespace Check

def str : Check
  | .str s => some (.str s)
  | _ => none

def dict : Check
  | .dict fields => some (.dict fields)
  | _ => none

def optional (check : Check) : Check
  | .none => some .none
  | v => check v

def list (check : Check) : Check
  | .list xs => (xs.mapM check).map .list
  | _ => none

variable (lax : Lax)

def int : Check
  | .int z => some (.int z)
  | .bool b => some (.int (if b then 1 else 0))
  | .float q => if q.den = 1 then some (.int q.num) else none
  | .str s => (lax.intOfText s).map .int
  | _ => none

def float : Check
  | .str s => (lax.floatOfText s).map .float
  | v => v.number.toOption.map .float

def bool : Check
  | .bool b => some (.bool b)
  | .str s => (lax.boolOfText s).map .bool
  | .int z => if z = 0 then some (.bool false) else if z = 1 then some (.bool true) else none
  | .float q => if q = 0 then some (.bool false) else if q = 1 then some (.bool true) else none
  | _ => none

/-- Coerced values are left alone. -/
def Stable (check : Check) : Prop := ∀ v w, check v = some w → check w = some w

theorem str_eq {v w : Value} (h : str v = some w) : w = v := by
  cases v <;> simp_all [str]

theorem dict_eq {v w : Value} (h : dict v = some w) : w = v := by
  cases v <;> simp_all [dict]

theorem optional_some {check : Check} {v w : Value} (h : optional check v = some w) :
    v = .none ∧ w = .none ∨ check v = some w := by
  cases v <;> simp_all [optional]

theorem optional_of_check {check : Check} {w : Value} (h : check w = some w) :
    optional check w = some w := by
  cases w <;> first | rfl | exact h

theorem stable_of_eq {check : Check} (same : ∀ v w, check v = some w → w = v) :
    check.Stable := by
  intro v w h
  obtain rfl := same v w h
  exact h

theorem str_stable : str.Stable := stable_of_eq fun _ _ => str_eq

theorem dict_stable : dict.Stable := stable_of_eq fun _ _ => dict_eq

theorem optional_stable {check : Check} (stable : check.Stable) : (optional check).Stable := by
  intro v w h
  rcases optional_some h with ⟨_, rfl⟩ | h
  · rfl
  · exact optional_of_check (stable v w h)

theorem int_some {v w : Value} (h : int lax v = some w) : ∃ z, w = .int z := by
  cases v with
  | none => simp [int] at h
  | bool b => exact ⟨_, (Option.some.inj h).symm⟩
  | int z => exact ⟨_, (Option.some.inj h).symm⟩
  | float q =>
      simp only [int] at h
      split at h
      · exact ⟨_, (Option.some.inj h).symm⟩
      · exact nomatch h
  | str s =>
      obtain ⟨z, _, rfl⟩ := Option.map_eq_some_iff.mp h
      exact ⟨z, rfl⟩
  | list xs => simp [int] at h
  | dict fields => simp [int] at h

theorem int_stable : (int lax).Stable := by
  intro v w h
  obtain ⟨z, rfl⟩ := int_some lax h
  rfl

theorem float_some {v w : Value} (h : float lax v = some w) : ∃ q, w = .float q := by
  unfold float at h
  split at h
  · obtain ⟨q, _, rfl⟩ := Option.map_eq_some_iff.mp h
    exact ⟨q, rfl⟩
  · obtain ⟨q, _, rfl⟩ := Option.map_eq_some_iff.mp h
    exact ⟨q, rfl⟩

theorem float_stable : (float lax).Stable := by
  intro v w h
  obtain ⟨q, rfl⟩ := float_some lax h
  rfl

theorem bool_some {v w : Value} (h : bool lax v = some w) : ∃ b, w = .bool b := by
  cases v with
  | none => simp [bool] at h
  | bool b => exact ⟨b, (Option.some.inj h).symm⟩
  | int z =>
      simp only [bool] at h
      split_ifs at h <;> exact ⟨_, (Option.some.inj h).symm⟩
  | float q =>
      simp only [bool] at h
      split_ifs at h <;> exact ⟨_, (Option.some.inj h).symm⟩
  | str s =>
      obtain ⟨b, _, rfl⟩ := Option.map_eq_some_iff.mp h
      exact ⟨b, rfl⟩
  | list xs => simp [bool] at h
  | dict fields => simp [bool] at h

theorem bool_stable : (bool lax).Stable := by
  intro v w h
  obtain ⟨b, rfl⟩ := bool_some lax h
  rfl

theorem mapM_forall₂ {check : Check} {xs ys : List Value} (h : xs.mapM check = some ys) :
    List.Forall₂ (fun x y => check x = some y) xs ys := by
  induction xs generalizing ys with
  | nil =>
      cases h
      exact .nil
  | cons x xs ih =>
      rw [List.mapM_cons] at h
      obtain ⟨y, hy, h⟩ := Option.bind_eq_some_iff.mp h
      obtain ⟨rest, hrest, h⟩ := Option.bind_eq_some_iff.mp h
      cases h
      exact .cons hy (ih hrest)

theorem list_some {check : Check} {v w : Value} (h : list check v = some w) :
    ∃ xs ys, v = .list xs ∧ w = .list ys ∧
      List.Forall₂ (fun x y => check x = some y) xs ys := by
  cases v with
  | list xs =>
      obtain ⟨ys, hys, rfl⟩ := Option.map_eq_some_iff.mp h
      exact ⟨xs, ys, rfl, rfl, mapM_forall₂ hys⟩
  | _ => simp [list] at h

theorem list_stable {check : Check} (stable : check.Stable) : (list check).Stable := by
  intro v w h
  obtain ⟨xs, ys, rfl, rfl, pairs⟩ := list_some h
  have again : ys.mapM check = some ys := by
    clear h
    induction pairs with
    | nil => rfl
    | cons hy _ ih =>
        rw [List.mapM_cons, stable _ _ hy, ih]
        rfl
  rw [list, again]
  rfl

end Check

/-- A declared field. Its default, if it has one, passes its check unchanged. -/
structure Field where
  name : String
  check : Check
  default : Option Value
  stable : check.Stable
  default_ok : ∀ v, default = some v → check v = some v

namespace Field

/-- The validated value of a field of a dictionary. -/
def read (f : Field) (fields : List (String × Value)) : Option Value :=
  match fields.lookup f.name with
  | some v => f.check v
  | none => f.default

theorem read_stable {f : Field} {fields : List (String × Value)} {v : Value}
    (h : f.read fields = some v) : f.check v = some v := by
  rw [read] at h
  split at h
  · exact f.stable _ _ h
  · exact f.default_ok v h

end Field

/-- The declared fields of a dictionary with their validated values. -/
def declared (model : List Field) (fields : List (String × Value)) :
    Option (List (String × Value)) :=
  model.mapM fun f => (f.read fields).map fun v => (f.name, v)

/-- Validate a dictionary against a model; undeclared fields are kept as they are. -/
def Check.model (model : List Field) : Check
  | .dict fields => (declared model fields).map fun values =>
      .dict (values ++ fields.filter fun kv => kv.1 ∉ model.map Field.name)
  | _ => none

/-- A dictionary and its validated form. -/
structure Filled (model : List Field) (fields fields' : List (String × Value)) : Prop where
  declared : ∀ f ∈ model, ∃ v, f.read fields = some v ∧ fields'.lookup f.name = some v
  others : ∀ name, name ∉ model.map Field.name → fields'.lookup name = fields.lookup name

section Lookup

variable {model : List Field} {fields values : List (String × Value)}

theorem lookup_declared (distinct : (model.map Field.name).Nodup)
    (h : Python.declared model fields = some values) :
    (∀ f ∈ model, ∃ v, f.read fields = some v ∧ values.lookup f.name = some v) ∧
      ∀ name, name ∉ model.map Field.name → values.lookup name = none := by
  induction model generalizing values with
  | nil =>
      cases h
      exact ⟨nofun, fun _ _ => rfl⟩
  | cons f model ih =>
      rw [Python.declared, List.mapM_cons] at h
      obtain ⟨kv, hkv, h⟩ := Option.bind_eq_some_iff.mp h
      obtain ⟨rest, hrest, h⟩ := Option.bind_eq_some_iff.mp h
      obtain ⟨v, hv, rfl⟩ := Option.map_eq_some_iff.mp hkv
      cases h
      obtain ⟨fresh, distinct⟩ := List.nodup_cons.mp distinct
      obtain ⟨found, absent⟩ := ih distinct hrest
      refine ⟨?_, ?_⟩
      · intro g hg
        rcases List.mem_cons.mp hg with rfl | hg
        · exact ⟨v, hv, by rw [Value.lookup_cons_eq_ite, if_pos rfl]⟩
        · obtain ⟨w, hw, hlookup⟩ := found g hg
          have apart : g.name ≠ f.name := fun same => fresh (same ▸ List.mem_map_of_mem hg)
          exact ⟨w, hw, by rw [Value.lookup_cons_eq_ite, if_neg apart, hlookup]⟩
      · intro name hname
        rw [List.map_cons, List.mem_cons, not_or] at hname
        rw [Value.lookup_cons_eq_ite, if_neg hname.1, absent name hname.2]

theorem lookup_append (xs ys : List (String × Value)) (name : String) :
    (xs ++ ys).lookup name = (xs.lookup name).or (ys.lookup name) := by
  induction xs with
  | nil => rfl
  | cons kv xs ih =>
      rw [List.cons_append, Value.lookup_cons_eq_ite, Value.lookup_cons_eq_ite, ih]
      split <;> rfl

theorem lookup_filter (xs : List (String × Value)) {p : String → Bool} {name : String}
    (kept : p name = true) : (xs.filter fun kv => p kv.1).lookup name = xs.lookup name := by
  induction xs with
  | nil => rfl
  | cons kv xs ih =>
      rw [Value.lookup_cons_eq_ite, ← ih, List.filter_cons]
      by_cases same : name = kv.1
      · rw [if_pos same, if_pos (same ▸ kept), Value.lookup_cons_eq_ite, if_pos same]
      · rw [if_neg same]
        split
        · rw [Value.lookup_cons_eq_ite, if_neg same]
        · rfl

theorem Check.model_some (distinct : (model.map Field.name).Nodup) {v w : Value}
    (h : Check.model model v = some w) :
    ∃ fields fields', v = .dict fields ∧ w = .dict fields' ∧ Filled model fields fields' := by
  cases v with
  | dict fields =>
      obtain ⟨values, hvalues, rfl⟩ := Option.map_eq_some_iff.mp h
      obtain ⟨found, absent⟩ := lookup_declared distinct hvalues
      refine ⟨fields, _, rfl, rfl, ?_, ?_⟩
      · intro f hf
        obtain ⟨v, hv, hlookup⟩ := found f hf
        exact ⟨v, hv, by rw [lookup_append, hlookup]; rfl⟩
      · intro name hname
        rw [lookup_append, absent name hname]
        exact lookup_filter (p := fun name => decide (name ∉ model.map Field.name)) fields
          (by simpa using hname)
  | _ => simp [Check.model] at h

theorem declared_keys (h : Python.declared model fields = some values) :
    values.map Prod.fst = model.map Field.name := by
  induction model generalizing values with
  | nil =>
      cases h
      rfl
  | cons f model ih =>
      rw [Python.declared, List.mapM_cons] at h
      obtain ⟨kv, hkv, h⟩ := Option.bind_eq_some_iff.mp h
      obtain ⟨rest, hrest, h⟩ := Option.bind_eq_some_iff.mp h
      obtain ⟨v, _, rfl⟩ := Option.map_eq_some_iff.mp hkv
      cases h
      rw [List.map_cons, List.map_cons, ih hrest]

theorem declared_congr (fields : List (String × Value)) {fields' : List (String × Value)}
    (same : ∀ f ∈ model, f.read fields' = f.read fields) :
    Python.declared model fields' = Python.declared model fields := by
  induction model with
  | nil => rfl
  | cons f model ih =>
      rw [Python.declared, Python.declared, List.mapM_cons, List.mapM_cons,
        same f (List.mem_cons_self ..)]
      have rest := ih (fun g hg => same g (List.mem_cons_of_mem _ hg))
      rw [Python.declared, Python.declared] at rest
      rw [rest]

/-- A validated dictionary is its own validated form. -/
theorem Check.model_stable (distinct : (model.map Field.name).Nodup) :
    (Check.model model).Stable := by
  intro v w h
  obtain ⟨fields, fields', rfl, hw, filled⟩ := Check.model_some distinct h
  obtain ⟨values, hvalues, rfl⟩ := Option.map_eq_some_iff.mp h
  cases hw
  have again : Python.declared model
      (values ++ fields.filter fun kv => kv.1 ∉ model.map Field.name) = some values := by
    rw [declared_congr fields, hvalues]
    intro f hf
    obtain ⟨v, hread, hlookup⟩ := filled.declared f hf
    rw [hread, Field.read, hlookup]
    exact Field.read_stable hread
  have kept : (values ++ fields.filter fun kv => kv.1 ∉ model.map Field.name).filter
      (fun kv => kv.1 ∉ model.map Field.name) =
      fields.filter fun kv => kv.1 ∉ model.map Field.name := by
    rw [List.filter_append, List.filter_filter, List.filter_eq_nil_iff.mpr]
    · simp
    · intro kv hkv
      have : kv.1 ∈ model.map Field.name := declared_keys hvalues ▸ List.mem_map_of_mem hkv
      simpa using this
  rw [Check.model, again, Option.map_some, kept]

end Lookup

/-! ### Reading a validated dictionary

A program that reads a field looks at its value in some way: as it is, as a number, as a
truth value. Reading the dictionary and reading its validated form are the same to it when
the value that was sent and the coerced one look the same under `g`. -/

/-- The value a field is sent with looks like the one it is coerced to. -/
def Field.Alike {γ : Type} (f : Field) (g : Value → γ) (fields : List (String × Value)) :
    Prop :=
  ∀ v w, fields.lookup f.name = some v → f.check v = some w → g v = g w

namespace Filled

variable {model : List Field} {fields fields' : List (String × Value)} {f : Field}

/-- A field that was sent is still there, coerced. -/
theorem lookup_of_present (filled : Filled model fields fields') (hf : f ∈ model) {v : Value}
    (present : fields.lookup f.name = some v) :
    ∃ w, f.check v = some w ∧ fields'.lookup f.name = some w := by
  obtain ⟨w, hread, hlookup⟩ := filled.declared f hf
  rw [Field.read, present] at hread
  exact ⟨w, hread, hlookup⟩

/-- An absent field is read as its default. -/
theorem lookup_of_absent (filled : Filled model fields fields') (hf : f ∈ model)
    (absent : fields.lookup f.name = none) :
    ∃ w, f.default = some w ∧ fields'.lookup f.name = some w := by
  obtain ⟨w, hread, hlookup⟩ := filled.declared f hf
  rw [Field.read, absent] at hread
  exact ⟨w, hread, hlookup⟩

/-- Without a default the field is present. -/
theorem present_of_required (filled : Filled model fields fields') (hf : f ∈ model)
    (required : f.default = none) : (fields.lookup f.name).isSome = true := by
  cases h : fields.lookup f.name with
  | none =>
      obtain ⟨w, hdefault, _⟩ := filled.lookup_of_absent hf h
      simp [required] at hdefault
  | some v => rfl

section Alike

variable {γ : Type} {g : Value → γ}

end Alike

end Filled

end Python
