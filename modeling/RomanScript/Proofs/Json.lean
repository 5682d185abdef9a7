import Mathlib.Data.List.Forall2
import RomanScript.Json

/-!
# Values with the same members

Two JSON values are the same when their objects have the same members, in whatever order these
stand. What is read by the keys of members is therefore the same for both.
-/

namespace RomanScript.Json

/-- Arrays are the same place by place, and objects key by key. -/
inductive Same : Json → Json → Prop
  | null : Same .null .null
  | bool (value : Bool) : Same (.bool value) (.bool value)
  | number (value : Int) : Same (.number value) (.number value)
  | string (value : String) : Same (.string value) (.string value)
  | array {elements elements' : List Json} :
      elements.length = elements'.length →
      (∀ {element element' : Json}, (element, element') ∈ elements.zip elements' →
        Same element element') →
      Same (.array elements) (.array elements')
  | object {members members' : List (String × Json)} :
      (∀ key, ((object members).member? key).isSome = ((object members').member? key).isSome) →
      (∀ {key : String} {value value' : Json}, (object members).member? key = some value →
        (object members').member? key = some value' → Same value value') →
      Same (.object members) (.object members')

section Induction

variable {motive : Json → Prop} (null : motive .null) (bool : ∀ value, motive (.bool value))
    (number : ∀ value, motive (.number value)) (string : ∀ value, motive (.string value))
    (array : ∀ elements, (∀ element ∈ elements, motive element) → motive (.array elements))
    (object : ∀ members, (∀ member ∈ members, motive member.2) → motive (.object members))

include null bool number string array object

/-- Induction over values, where what contains others comes after them. -/
theorem induction : (json : Json) → motive json
  | .null => null
  | .bool value => bool value
  | .number value => number value
  | .string value => string value
  | .array elements => array elements fun element _ => induction element
  | .object members => object members fun member _ => induction member.2
termination_by json => sizeOf json
decreasing_by
  · have smaller := List.sizeOf_lt_of_mem ‹element ∈ elements›
    simp only [Json.array.sizeOf_spec]
    omega
  · have smaller := List.sizeOf_lt_of_mem ‹member ∈ members›
    obtain ⟨key, value⟩ := member
    simp only [Prod.mk.sizeOf_spec] at smaller
    simp only [Json.object.sizeOf_spec]
    omega

end Induction

variable {left right : Json}

private theorem mem_of_member?
    {members : List (String × Json)} {key : String} {value : Json}
    (found : (object members).member? key = some value) : ∃ member ∈ members, member.2 = value := by
  obtain ⟨member, isFirst, isValue⟩ := Option.map_eq_some_iff.mp found
  exact ⟨member, List.mem_of_find?_eq_some isFirst, isValue⟩

theorem Same.refl (json : Json) : Same json json := by
  induction json using Json.induction with
  | null => exact .null
  | bool value => exact .bool value
  | number value => exact .number value
  | string value => exact .string value
  | array elements same =>
      have pointwise : List.Forall₂ Same elements elements :=
        List.forall₂_same.mpr same
      obtain ⟨size, each⟩ := List.forall₂_iff_zip.mp pointwise
      exact .array size each
  | object members same =>
      apply Same.object
      · exact fun _ => rfl
      · intro key value value' found found'
        obtain ⟨member, isMember, rfl⟩ := mem_of_member? found
        rw [found, Option.some.injEq] at found'
        exact found' ▸ same member isMember

def text? : Json → Option String
  | string value => some value
  | _ => none

def number? : Json → Option Int
  | number value => some value
  | _ => none

def elements? : Json → Option (List Json)
  | array elements => some elements
  | _ => none

def readAt {α : Type} (read : Json → Option α) (key : String) (json : Json) : Option α :=
  (json.member? key).bind read

def readAll {α : Type} (read : Json → Option α) (json : Json) : Option (List α) :=
  json.elements?.bind (List.mapM read)

/-- What is read alike from any two values that are the same. -/
def Respects {α : Type} (read : Json → Option α) : Prop :=
  ∀ left right, Same left right → read left = read right

theorem respects_text? : Respects text? := by
  intro left right same
  cases same <;> rfl

theorem respects_number? : Respects number? := by
  intro left right same
  cases same <;> rfl

/-- What is read under a key is alike if both have a value there or neither has, and the values are
read alike. -/
theorem readAt_congr
    {α : Type} {read : Json → Option α} {key : String}
    (present : (left.member? key).isSome = (right.member? key).isSome)
    (alike : ∀ {value value' : Json}, left.member? key = some value →
      right.member? key = some value' → read value = read value') :
    readAt read key left = readAt read key right := by
  unfold readAt
  cases found : left.member? key with
  | none =>
      cases found' : right.member? key with
      | none => rfl
      | some value' => simp [found, found'] at present
  | some value =>
      cases found' : right.member? key with
      | none => simp [found, found'] at present
      | some value' => exact alike found found'

theorem Respects.readAt
    {α : Type} {read : Json → Option α} (respects : Respects read) (key : String) :
    Respects (readAt read key) := by
  intro left right same
  cases same with
  | object keys values =>
      apply readAt_congr (keys key)
      intro value value' found found'
      exact respects _ _ (values found found')
  | _ => rfl

theorem mapM_congr
    {α : Type} {read : Json → Option α} {elements elements' : List Json}
    (alike : List.Forall₂ (fun element element' => read element = read element')
      elements elements') :
    elements.mapM read = elements'.mapM read := by
  induction alike with
  | nil => rfl
  | cons first _ inductionHypothesis =>
      rw [List.mapM_cons, List.mapM_cons, first, inductionHypothesis]

theorem Respects.readAll
    {α : Type} {read : Json → Option α} (respects : Respects read) :
    Respects (readAll read) := by
  intro left right same
  cases same with
  | array size each =>
      apply mapM_congr
      exact List.forall₂_iff_zip.mpr ⟨size, fun member => respects _ _ (each member)⟩
  | _ => rfl

/-- What has been written is read again, element by element. -/
theorem mapM_map
    {α : Type} {read : Json → Option α} {write : α → Json} {values : List α}
    (regained : ∀ value ∈ values, read (write value) = some value) :
    (values.map write).mapM read = some values := by
  induction values with
  | nil => rfl
  | cons first rest inductionHypothesis =>
      obtain ⟨isFirst, others⟩ := List.forall_mem_cons.mp regained
      rw [List.map_cons, List.mapM_cons, isFirst, inductionHypothesis others]
      rfl

end RomanScript.Json
