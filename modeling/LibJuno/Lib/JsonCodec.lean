import LibJuno.Lib.Json
import LibJuno.Lib.OrderedMap

/-!
# Values as JSON

A codec turns values of a type into JSON and back. There are codecs for strings, numbers,
truth values, lists and maps with string keys, and a way to write a record whose missing
fields are left out.
-/

namespace Json

/-- The property of an object; of two members with one key the later one counts. -/
def get (j : Json) (key : String) : Option Json :=
  match j with
  | .obj members => (members.reverse.find? fun m => decide (m.1 = key)).map Prod.snd
  | _ => none

/-- A record, without the fields that are missing. -/
def record (fields : List (String × Option Json)) : Json :=
  .obj (fields.filterMap fun f => f.2.map (Prod.mk f.1))

/-- A property of a record with distinct fields is the field. -/
theorem get_record {fields : List (String × Option Json)} (distinct : (fields.map Prod.fst).Nodup)
    (key : String) :
    (record fields).get key = ((fields.find? fun f => decide (f.1 = key)).bind Prod.snd) := by
  unfold record get
  dsimp only
  induction fields with
  | nil => rfl
  | cons f fs ih =>
    obtain ⟨k, v⟩ := f
    rw [List.map_cons, List.nodup_cons] at distinct
    have later := ih distinct.2
    by_cases here : k = key
    · subst here
      have none_later : fs.find? (fun f => decide (f.1 = k)) = none := by
        rw [List.find?_eq_none]
        intro f member same
        have there : f.1 ∈ fs.map Prod.fst := List.mem_map_of_mem member
        rw [of_decide_eq_true same] at there
        exact distinct.1 there
      rw [none_later, Option.bind_none, Option.map_eq_none_iff] at later
      cases v with
      | none => simpa using later
      | some v => simp [later]
    · cases v with
      | none => simpa [here] using later
      | some v => simpa [List.find?_append, here] using later

/-- A type whose values are written as JSON and read back. -/
structure Codec (α : Type*) where
  encode : α → Json
  decode : Json → Option α
  round_trip : ∀ a, decode (encode a) = some a

namespace Codec

variable {α : Type*}

def string : Codec String where
  encode := .str
  decode
    | .str s => some s
    | _ => none
  round_trip _ := rfl

def nat : Codec Nat where
  encode := .num
  decode
    | .num n => some n
    | _ => none
  round_trip _ := rfl

def bool : Codec Bool where
  encode := .bool
  decode
    | .bool b => some b
    | _ => none
  round_trip _ := rfl

def list (c : Codec α) : Codec (List α) where
  encode as := .arr (as.map c.encode)
  decode
    | .arr js => js.mapM c.decode
    | _ => none
  round_trip as := by
    dsimp only
    induction as with
    | nil => rfl
    | cons a as ih => rw [List.map_cons, List.mapM_cons, c.round_trip, ih]; rfl

/-- A map as an object with the same entries. -/
def object (c : Codec α) : Codec (OrderedMap String α) where
  encode m := .obj (m.mapValues c.encode).entries
  decode
    | .obj members =>
      ((OrderedMap.ofEntries members).entries.mapM fun e => (c.decode e.2).map (Prod.mk e.1)).map
        OrderedMap.ofEntries
    | _ => none
  round_trip m := by
    have entries : ((m.mapValues c.encode).entries.mapM fun e =>
        (c.decode e.2).map (Prod.mk e.1)) = some m.entries := by
      unfold OrderedMap.mapValues
      dsimp only
      induction m.entries with
      | nil => rfl
      | cons e es ih => rw [List.map_cons, List.mapM_cons, c.round_trip, ih]; rfl
    dsimp only
    rw [OrderedMap.ofEntries_entries, entries, Option.map_some, OrderedMap.ofEntries_entries]

/-- A field that has to be there. -/
def required (c : Codec α) (field : Option Json) : Option α := field.bind c.decode

/-- A field that may be missing. -/
def optional (c : Codec α) : Option Json → Option (Option α)
  | none => some none
  | some j => (c.decode j).map some

@[simp] theorem required_encode (c : Codec α) (a : α) : c.required (some (c.encode a)) = some a :=
  c.round_trip a

@[simp] theorem optional_encode (c : Codec α) (a : Option α) :
    c.optional (a.map c.encode) = some a := by
  cases a with
  | none => rfl
  | some a => exact congrArg (Option.map some) (c.round_trip a)

end Codec

end Json
