import SecantDescent.Proofs.Float.Writing
import SecantDescent.Proofs.Json.Fields
import SecantDescent.Proofs.Json.RoundTrip
import SecantDescent.Settings

/-!
# Settings survive being written and read

Settings whose numbers are finite are read back from the text that is written for them,
and every text that is read at all is read as such settings.  How a text writes its
value makes no difference: blanks around the value, the order of the members, members
that are not known, an array in place of an object, and the two ways to write a choice.
-/

namespace SecantDescent

open Json

variable {α : Type} [BinaryFloat α]

/-! ## Finite settings -/

def StoppingRule.Finite (rule : StoppingRule α) : Prop :=
  Scalar.isFinite rule.tolerance = true

def StepRule.Finite (rule : StepRule α) : Prop :=
  Scalar.isFinite rule.stepLength = true

def Safeguard.Finite (safeguard : Safeguard α) : Prop :=
  Scalar.isFinite safeguard.tolerance = true

namespace Document

variable {β γ δ : Type} [Document β] [Document γ] [Document δ]

/-- What is written for a finite value is read back as that value.  A text that is read
at all is read as a finite value, and as the same value as any other text that differs
from it in the way of writing only. -/
structure RoundTrips (γ : Type) [Document γ] (finite : γ → Prop)
    (same : Json → Json → Prop) : Prop where
  read_write {value : γ} : finite value → read? (write value) = some value
  write_read {source : String} {value : γ} :
    read? source = some value → finite value ∧ read? (write value) = some value
  read_same {source source' : String} {json json' : Json} :
    parse? source = some json → parse? source' = some json' → same json json' →
      (read? source : Option γ) = read? source'
  read_surrounded {before after : String} (source : String) :
    Blank before.toList → Blank after.toList →
      (read? (before ++ source ++ after) : Option γ) = read? source

/-- The part of a round trip that has nothing to do with texts. -/
structure Lawful (γ : Type) [Document γ] (finite : γ → Prop) (same : Json → Json → Prop) :
    Prop where
  textual_encode (value : γ) : textual (encode value) = true
  decode_encode {value : γ} : finite value → decode (encode value) = some value
  finite_of_decode {json : Json} {value : γ} : decode json = some value → finite value
  decode_same {json json' : Json} : same json json' → (decode json : Option γ) = decode json'

theorem read?_eq (source : String) : (read? source : Option γ) = (parse? source).bind decode :=
  rfl

theorem Lawful.roundTrips {finite : γ → Prop} {same : Json → Json → Prop}
    (hlawful : Lawful γ finite same) :
    RoundTrips γ finite same := by
  have hwrite {value : γ} (hfinite : finite value) : read? (write value) = some value := by
    rw [read?_eq, write, parse?_render (hlawful.textual_encode value), Option.bind_some,
      hlawful.decode_encode hfinite]
  constructor
  case read_write => exact hwrite
  case write_read =>
    intro source value hread
    obtain ⟨json, -, hdecode⟩ := Option.bind_eq_some_iff.mp hread
    have hfinite := hlawful.finite_of_decode hdecode
    exact ⟨hfinite, hwrite hfinite⟩
  case read_same =>
    intro source source' json json' hparse hparse' hsame
    rw [read?_eq, read?_eq, hparse, hparse', Option.bind_some, Option.bind_some,
      hlawful.decode_same hsame]
  case read_surrounded =>
    intro before after source hbefore hafter
    rw [read?_eq, read?_eq, parse?_surrounded hbefore hafter]

/-! ## Fields -/

theorem decode_same_of_plain
    (hplain : ∀ json, (decode (plainChoice json) : Option γ) = decode json)
    {json json' : Json} (hsame : SameChoice json json') :
    (decode json : Option γ) = decode json' := by
  rw [← hplain json, ← hplain json', hsame]

theorem encode_number {x : α} {d : Decimal}
    (hnumeral : BinaryFloat.numeral (BinaryFloat.convert x : Float) = .finite d) :
    encode x = .number d.toLiteral := by
  simp only [encode, hnumeral]

theorem decode_number (literal : NumberLiteral) :
    (decode (.number literal) : Option α) =
      if Scalar.isFinite (literal.nearest α) then some (literal.nearest α) else none :=
  rfl

theorem lawful_number [LawfulBinary α] :
    Lawful α (fun x => Scalar.isFinite x = true) SameChoice where
  textual_encode x := by
    simp only [encode]
    split <;> rfl
  decode_encode {x} hfinite := by
    obtain ⟨d, hnumeral, hback⟩ := BinaryFloat.numeral_convert_reads_back hfinite
    have hliteral : d.toLiteral.nearest α = x := hback
    rw [encode_number hnumeral, decode_number, hliteral, if_pos hfinite]
  finite_of_decode {json x} hdecode := by
    cases json with
    | number literal =>
        rw [decode_number] at hdecode
        obtain ⟨hfinite, heq⟩ := Option.ite_none_right_eq_some.mp hdecode
        exact Option.some.inj heq ▸ hfinite
    | _ => cases hdecode
  decode_same := decode_same_of_plain fun json => by fun_cases plainChoice json <;> rfl

theorem lawful_count : Lawful UInt64 (fun _ => True) SameChoice where
  textual_encode _ := rfl
  decode_encode {n} _ := by
    change (if n.toNat < UInt64.size then some (UInt64.ofNat n.toNat) else none) = some n
    rw [if_pos n.toNat_lt, UInt64.ofNat_toNat]
  finite_of_decode _ := trivial
  decode_same := decode_same_of_plain fun json => by fun_cases plainChoice json <;> rfl

theorem lawful_policy : Lawful DegeneratePolicy (fun _ => True) SameChoice where
  textual_encode policy := by cases policy <;> rfl
  decode_encode {policy} _ := by cases policy <;> rfl
  finite_of_decode _ := trivial
  decode_same := decode_same_of_plain fun json => by fun_cases plainChoice json <;> rfl

theorem lawful_ending : Lawful Ending (fun _ => True) SameChoice where
  textual_encode ending := by cases ending <;> rfl
  decode_encode {ending} _ := by cases ending <;> rfl
  finite_of_decode _ := trivial
  decode_same := decode_same_of_plain fun json => by fun_cases plainChoice json <;> rfl

/-! ## Records -/

/-- Makes a record from the value of its only field. -/
def readSingle (make : β → δ) : List Json → Option δ
  | [json] => (decode json).map make
  | _ => none

/-- Makes a record from the values of its two fields. -/
def readPair (make : β → γ → δ) : List Json → Option δ
  | [json, json'] => do return make (← decode json) (← decode json')
  | _ => none

theorem decode_same_of_fields {names : List String} {read : List Json → Option δ}
    (hnodup : names.Nodup) (hdecode : ∀ json, decode json = (fields? names json).bind read)
    (hplain : ∀ items, read (items.map plainChoice) = read items) {json json' : Json}
    (hsame : SameFields names json json') : (decode json : Option δ) = decode json' := by
  have hfields (json : Json) : decode json = (plainFields? names json).bind read := by
    rw [hdecode, plainFields?, Option.bind_map]
    exact congrArg _ (funext fun items => (hplain items).symm)
  rw [hfields, hfields, hsame.plainFields?_eq hnodup]

theorem Lawful.decode_plainChoice {finite : γ → Prop}
    (hlawful : Lawful γ finite SameChoice) (json : Json) :
    (decode (plainChoice json) : Option γ) = decode json :=
  hlawful.decode_same (sameChoice_plainChoice json)

section Record

variable {finiteβ : β → Prop} {finiteγ : γ → Prop} {finite : δ → Prop} {name name' : String}

theorem Lawful.single (hfield : Lawful β finiteβ SameChoice) (make : β → δ)
    (hmake : ∀ record, ∃ x, record = make x) (hfinite : ∀ x, finite (make x) ↔ finiteβ x)
    (hencode : ∀ x, encode (make x) = .record [(name, encode x)])
    (hdecode : ∀ json, decode json = (fields? [name] json).bind (readSingle make)) :
    Lawful δ finite (SameFields [name]) where
  textual_encode record := by
    obtain ⟨x, rfl⟩ := hmake record
    rw [hencode]
    change (textual (encode x) && true) = true
    rw [hfield.textual_encode, Bool.and_true]
  decode_encode {record} hrecord := by
    obtain ⟨x, rfl⟩ := hmake record
    have hfields : fields? [name] (.record [(name, encode x)]) = some [encode x] :=
      fields?_record (List.nodup_singleton name)
    rw [hencode, hdecode, hfields, Option.bind_some, readSingle,
      hfield.decode_encode ((hfinite x).mp hrecord), Option.map_some]
  finite_of_decode {json record} hread := by
    rw [hdecode] at hread
    obtain ⟨items, -, hitems⟩ := Option.bind_eq_some_iff.mp hread
    match items, hitems with
    | [json], hitems =>
        obtain ⟨x, hx, rfl⟩ := Option.map_eq_some_iff.mp hitems
        exact (hfinite x).mpr (hfield.finite_of_decode hx)
  decode_same := decode_same_of_fields (List.nodup_singleton name) hdecode fun items => by
    match items with
    | [] => rfl
    | [json] => rw [List.map_singleton, readSingle, readSingle, hfield.decode_plainChoice]
    | _ :: _ :: _ => rfl

theorem Lawful.pair (hfirst : Lawful β finiteβ SameChoice)
    (hsecond : Lawful γ finiteγ SameChoice)
    (hne : name ≠ name') (make : β → γ → δ) (hmake : ∀ record, ∃ x y, record = make x y)
    (hfinite : ∀ x y, finite (make x y) ↔ finiteβ x ∧ finiteγ y)
    (hencode : ∀ x y, encode (make x y) = .record [(name, encode x), (name', encode y)])
    (hdecode : ∀ json, decode json = (fields? [name, name'] json).bind (readPair make)) :
    Lawful δ finite (SameFields [name, name']) := by
  have hnodup : [name, name'].Nodup := by simpa using hne
  constructor
  case textual_encode =>
    intro record
    obtain ⟨x, y, rfl⟩ := hmake record
    rw [hencode]
    change (textual (encode x) && (textual (encode y) && true)) = true
    rw [hfirst.textual_encode, hsecond.textual_encode, Bool.and_true, Bool.and_true]
  case decode_encode =>
    intro record hrecord
    obtain ⟨x, y, rfl⟩ := hmake record
    obtain ⟨hx, hy⟩ := (hfinite x y).mp hrecord
    have hfields : fields? [name, name'] (.record [(name, encode x), (name', encode y)]) =
        some [encode x, encode y] := fields?_record hnodup
    rw [hencode, hdecode, hfields, Option.bind_some, readPair, hfirst.decode_encode hx,
      hsecond.decode_encode hy]
    rfl
  case finite_of_decode =>
    intro json record hread
    rw [hdecode] at hread
    obtain ⟨items, -, hitems⟩ := Option.bind_eq_some_iff.mp hread
    match items, hitems with
    | [json, json'], hitems =>
        obtain ⟨x, hx, hitems⟩ := Option.bind_eq_some_iff.mp hitems
        obtain ⟨y, hy, hitems⟩ := Option.bind_eq_some_iff.mp hitems
        cases hitems
        exact (hfinite x y).mpr ⟨hfirst.finite_of_decode hx, hsecond.finite_of_decode hy⟩
  case decode_same =>
    refine decode_same_of_fields hnodup hdecode fun items => ?_
    match items with
    | [] => rfl
    | [_] => rfl
    | [json, json'] =>
        change readPair make [plainChoice json, plainChoice json'] = _
        rw [readPair, readPair, hfirst.decode_plainChoice, hsecond.decode_plainChoice]
    | _ :: _ :: _ :: _ => rfl

end Record

section Settings

variable [LawfulBinary α]

theorem lawful_stoppingRule :
    Lawful (StoppingRule α) StoppingRule.Finite
      (SameFields ["gradient_tolerance", "max_iterations"]) := by
  refine lawful_number.pair lawful_count (by decide) StoppingRule.mk (fun rule => ⟨_, _, rfl⟩)
    (fun x n => (and_iff_left trivial).symm) (fun x n => rfl) fun json => ?_
  refine congrArg (Option.bind _) (funext fun items => ?_)
  match items with
  | [] => rfl
  | [_] => rfl
  | [_, _] => rfl
  | _ :: _ :: _ :: _ => rfl

theorem lawful_stepRule :
    Lawful (StepRule α) StepRule.Finite (SameFields ["step_length"]) := by
  refine lawful_number.single StepRule.mk (fun rule => ⟨_, rfl⟩) (fun x => Iff.rfl)
    (fun x => rfl) fun json => ?_
  refine congrArg (Option.bind _) (funext fun items => ?_)
  match items with
  | [] => rfl
  | [json] => exact Option.map_eq_bind.symm
  | _ :: _ :: _ => rfl

theorem lawful_safeguard :
    Lawful (Safeguard α) Safeguard.Finite (SameFields ["policy", "tolerance"]) := by
  refine lawful_policy.pair lawful_number (by decide) Safeguard.mk
    (fun safeguard => ⟨_, _, rfl⟩)
    (fun policy x => (and_iff_right trivial).symm) (fun policy x => rfl) fun json => ?_
  refine congrArg (Option.bind _) (funext fun items => ?_)
  match items with
  | [] => rfl
  | [_] => rfl
  | [_, _] => rfl
  | _ :: _ :: _ :: _ => rfl

end Settings

/-- Settings in binary64 and in binary32, what to do about degenerate updates, and how a
run ended: what is written is read back to the last bit, and only the values that a text
writes matter, not how it writes them. -/
theorem settings_round_trip :
    (RoundTrips (StoppingRule Float) StoppingRule.Finite
        (SameFields ["gradient_tolerance", "max_iterations"]) ∧
      RoundTrips (StepRule Float) StepRule.Finite (SameFields ["step_length"]) ∧
      RoundTrips (Safeguard Float) Safeguard.Finite (SameFields ["policy", "tolerance"])) ∧
    (RoundTrips (StoppingRule Float32) StoppingRule.Finite
        (SameFields ["gradient_tolerance", "max_iterations"]) ∧
      RoundTrips (StepRule Float32) StepRule.Finite (SameFields ["step_length"]) ∧
      RoundTrips (Safeguard Float32) Safeguard.Finite (SameFields ["policy", "tolerance"])) ∧
    RoundTrips DegeneratePolicy (fun _ => True) SameChoice ∧
    RoundTrips Ending (fun _ => True) SameChoice :=
  ⟨⟨lawful_stoppingRule.roundTrips, lawful_stepRule.roundTrips, lawful_safeguard.roundTrips⟩,
    ⟨lawful_stoppingRule.roundTrips, lawful_stepRule.roundTrips, lawful_safeguard.roundTrips⟩,
    lawful_policy.roundTrips, lawful_ending.roundTrips⟩

/-- The smallest step length, a tolerance that is printed with 17 digits, and the
smallest tolerance of single width with the largest budget. -/
theorem extreme_settings_round_trip :
    (StepRule.Finite (⟨Float.ofBits 1⟩ : StepRule Float) ∧
      read? (write (⟨Float.ofBits 1⟩ : StepRule Float)) =
        some (⟨Float.ofBits 1⟩ : StepRule Float)) ∧
    (Safeguard.Finite (⟨.error, Float.ofBits 0x3fd3333333333334⟩ : Safeguard Float) ∧
      read? (write (⟨.error, Float.ofBits 0x3fd3333333333334⟩ : Safeguard Float)) =
        some (⟨.error, Float.ofBits 0x3fd3333333333334⟩ : Safeguard Float)) ∧
    StoppingRule.Finite (⟨Float32.ofBits 1, 0xffffffffffffffff⟩ : StoppingRule Float32) ∧
      read? (write (⟨Float32.ofBits 1, 0xffffffffffffffff⟩ : StoppingRule Float32)) =
        some (⟨Float32.ofBits 1, 0xffffffffffffffff⟩ : StoppingRule Float32) := by
  have hstep : StepRule.Finite (⟨Float.ofBits 1⟩ : StepRule Float) := by
    unfold StepRule.Finite
    decide
  have hsafeguard : Safeguard.Finite
      (⟨.error, Float.ofBits 0x3fd3333333333334⟩ : Safeguard Float) := by
    unfold Safeguard.Finite
    decide
  have hstopping : StoppingRule.Finite
      (⟨Float32.ofBits 1, 0xffffffffffffffff⟩ : StoppingRule Float32) := by
    unfold StoppingRule.Finite
    decide
  obtain ⟨⟨-, hsteps, hsafeguards⟩, ⟨hstoppings, -⟩, -⟩ := settings_round_trip
  exact ⟨⟨hstep, hsteps.read_write hstep⟩, ⟨hsafeguard, hsafeguards.read_write hsafeguard⟩,
    hstopping, hstoppings.read_write hstopping⟩

example :
    (read?
      " \x7b \"tolerance\": 5e-1, \"note\": [], \"policy\": \x7b\"Skip\": null\x7d \x7d " :
      Option (Safeguard Float)).map (fun safeguard => (safeguard.policy, safeguard.tolerance)) =
      some (.skip, 0.5) := by
  decide +kernel

end Document

end SecantDescent
