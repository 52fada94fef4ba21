import LayeredTemplate.Base64
import LayeredTemplate.CharacterData
import LayeredTemplate.Json.Format
import LayeredTemplate.Text.Quoted

/-! Vocabularies: the names that templates may use, and the handlers they stand for. Formatters and
encoders share one namespace, and a name once taken is neither replaced nor given up. -/
namespace LayeredTemplate

/-- Entries stand in ascending order of their names. -/
structure Vocabulary (ω : Type) where
  entries : List (String × Handler ω)
  sorted : entries.Pairwise fun a b => a.1 < b.1

namespace Vocabulary

variable {ω : Type}

def empty : Vocabulary ω := ⟨[], .nil⟩

def names (v : Vocabulary ω) : List String := v.entries.map (·.1)

def size (v : Vocabulary ω) : Nat := v.entries.length

def resolve (v : Vocabulary ω) (name : String) : Option (Handler ω) :=
  (v.entries.find? (·.1 = name)).map (·.2)

def contains (v : Vocabulary ω) (name : String) : Bool := v.entries.any (·.1 = name)

/-- Puts an entry in its place among sorted ones. -/
def place (entry : String × Handler ω) : List (String × Handler ω) → List (String × Handler ω)
  | [] => [entry]
  | e :: rest => if entry.1 < e.1 then entry :: e :: rest else e :: place entry rest

theorem mem_place {entry e : String × Handler ω} {es : List (String × Handler ω)} :
    e ∈ place entry es ↔ e = entry ∨ e ∈ es := by
  induction es with
  | nil => simp [place]
  | cons d rest ih =>
      unfold place
      split
      · simp
      · simp only [List.mem_cons, ih]
        constructor <;> rintro (h | h | h) <;> simp [h]

theorem sorted_place {entry : String × Handler ω} {es : List (String × Handler ω)}
    (fresh : ∀ e ∈ es, e.1 ≠ entry.1) (h : es.Pairwise fun a b => a.1 < b.1) :
    (place entry es).Pairwise fun a b => a.1 < b.1 := by
  induction es with
  | nil => simp [place]
  | cons d rest ih =>
      obtain ⟨below, tail⟩ := List.pairwise_cons.1 h
      unfold place
      split
      · rename_i lt
        refine List.pairwise_cons.2 ⟨fun e he => ?_, h⟩
        rcases List.mem_cons.1 he with rfl | he
        · exact lt
        · exact String.lt_trans lt (below e he)
      · rename_i nlt
        have lt : d.1 < entry.1 := by
          refine String.not_le.1 fun le => fresh d (by simp) ?_
          exact String.le_antisymm (String.not_lt.1 nlt) le
        refine List.pairwise_cons.2 ⟨fun e he => ?_, ih (fun e he => fresh e (by simp [he])) tail⟩
        rcases mem_place.1 he with rfl | he
        · exact lt
        · exact below e he

def add (v : Vocabulary ω) (name : String) (h : Handler ω) : Except Failure (Vocabulary ω) :=
  if taken : v.contains name then .error (.alreadyRegistered name)
  else .ok ⟨place (name, h) v.entries, sorted_place (by
    simpa only [contains, List.any_eq_true, decide_eq_true_eq, not_exists, not_and] using taken)
    v.sorted⟩

/-- Adds entries in order, up to the first whose name is taken. -/
def addEach (v : Vocabulary ω) : List (String × Handler ω) → Except Failure Unit × Vocabulary ω
  | [] => (.ok (), v)
  | (name, h) :: rest =>
      match v.add name h with
      | .ok v => v.addEach rest
      | .error e => (.error e, v)

/-- The encoder that changes nothing, whatever its arguments. -/
def raw : String × Handler ω := ("RAW", .encoder fun _ => .ok .passthrough)

/-- The other handlers that come with the library, in the order in which they are installed. -/
def bundled : List (String × Handler ω) :=
  [("base64", .encoder Base64.encoder), ("json", .formatter Json.formatter),
    ("cdata", .encoder CharacterData.encoder)]

def install (v : Vocabulary ω) : Except Failure Unit × Vocabulary ω := v.addEach bundled

def withRaw : Vocabulary ω := (empty.addEach [raw]).2

def withDefaults : Vocabulary ω := (empty.addEach (raw :: bundled)).2

def describe (v : Vocabulary ω) : String :=
  let names := ", ".intercalate (v.names.map Text.quote)
  s!"Registry \x7b names: [{names}] \x7d"

end Vocabulary
end LayeredTemplate
