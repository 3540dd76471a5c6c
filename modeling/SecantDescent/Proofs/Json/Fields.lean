import Mathlib.Data.List.Perm.Basic
import Mathlib.Logic.Relation
import SecantDescent.Json.Document

/-!
# Values with the same fields

What a record reads does not depend on the order of the members, on members that name no
field, and on whether the record is written as an object or as an array.  A choice reads
the same as a string and as an object.
-/

namespace SecantDescent

open Json

namespace Document

/-! ## Choices -/

/-- A choice as a string, if it is written as an object. -/
def plainChoice : Json → Json
  | .object [(some name, .null)] => .text name
  | value => value

/-- Two ways of writing the same choice. -/
def SameChoice (value value' : Json) : Prop :=
  plainChoice value = plainChoice value'

theorem plainChoice_of_ne {value : Json}
    (hplain : ∀ name, value ≠ .object [(some name, .null)]) :
    plainChoice value = value := by
  unfold plainChoice
  split
  · next name => exact absurd rfl (hplain name)
  · rfl

theorem sameChoice_plainChoice (value : Json) : SameChoice (plainChoice value) value := by
  unfold SameChoice
  fun_cases plainChoice value
  · rfl
  · next hplain => exact plainChoice_of_ne hplain

/-! ## One member -/

section Members

variable {members members' : List (Option String × Json)} {names : List String}

theorem onlyMember?_perm (hperm : members.Perm members') (name : String) :
    onlyMember? members' name = onlyMember? members name := by
  have hfilter := hperm.filter fun member => member.1 == some name
  unfold onlyMember?
  generalize members.filter _ = named at hfilter ⊢
  generalize members'.filter _ = named' at hfilter ⊢
  match named, named' with
  | [], _ => rw [hfilter.nil_eq]
  | [member], _ => rw [List.singleton_perm.mp hfilter]
  | _ :: _ :: _, [] => cases hfilter.eq_nil
  | _ :: _ :: _, [_] => cases List.perm_singleton.mp hfilter
  | _ :: _ :: _, _ :: _ :: _ => rfl

theorem onlyMember?_map (h : Json → Json) (members : List (Option String × Json))
    (name : String) :
    onlyMember? (members.map fun member => (member.1, h member.2)) name =
      (onlyMember? members name).map h := by
  have hcomp : members.filter
      ((fun member => member.1 == some name) ∘ fun member : Option String × Json =>
      (member.1, h member.2)) = members.filter fun member => member.1 == some name := rfl
  unfold onlyMember?
  rw [List.filter_map, hcomp]
  generalize members.filter _ = named
  match named with
  | [] => rfl
  | [_] => rfl
  | _ :: _ :: _ => rfl

theorem onlyMember?_cons_of_ne {name name' : String} (hne : name ≠ name') (value : Json) :
    onlyMember? ((some name, value) :: members) name' = onlyMember? members name' := by
  unfold onlyMember?
  rw [List.filter_cons_of_neg (by simpa using hne)]

theorem onlyMember?_cons_self {name : String} (hfresh : some name ∉ members.map Prod.fst)
    (value : Json) :
    onlyMember? ((some name, value) :: members) name = some value := by
  have hnone : members.filter (fun member => member.1 == some name) = [] :=
    List.filter_eq_nil_iff.mpr fun member hmem hname =>
      hfresh (eq_of_beq hname ▸ List.mem_map_of_mem hmem)
  unfold onlyMember?
  rw [List.filter_cons_of_pos (by simp), hnone]

/-! ## All fields -/

theorem fields?_object (names : List String) (members : List (Option String × Json)) :
    fields? names (.object members) =
      if members.all fun member => member.1.isSome then names.mapM (onlyMember? members)
        else none :=
  rfl

theorem mapM_map {f g : String → Option Json} {h : Json → Json}
    (hmap : ∀ name ∈ names, g name = (f name).map h) :
    names.mapM g = (names.mapM f).map (List.map h) := by
  induction names with
  | nil => rfl
  | cons name names ih =>
      rw [List.mapM_cons, List.mapM_cons, hmap name List.mem_cons_self,
        ih fun name' hmem => hmap name' (List.mem_cons_of_mem name hmem)]
      cases f name with
      | none => rfl
      | some value => cases names.mapM f <;> rfl

theorem mapM_congr {f g : String → Option Json} (hcongr : ∀ name ∈ names, g name = f name) :
    names.mapM g = names.mapM f := by
  have hmap : ∀ name ∈ names, g name = (f name).map id := fun name hmem => by
    rw [hcongr name hmem, Option.map_id, id]
  rw [mapM_map hmap, List.map_id_fun, Option.map_id, id]

theorem fields?_map (h : Json → Json) :
    fields? names (.object (members.map fun member => (member.1, h member.2))) =
      (fields? names (.object members)).map (List.map h) := by
  rw [fields?_object, fields?_object, List.all_map,
    mapM_map fun name _ => onlyMember?_map h members name]
  change (if members.all fun member => member.1.isSome then _ else _) = _
  split <;> rfl

theorem fields?_perm (hperm : members.Perm members') :
    fields? names (.object members') = fields? names (.object members) := by
  rw [fields?_object, fields?_object, hperm.all_eq,
    mapM_congr fun name _ => onlyMember?_perm hperm name]

theorem mapM_onlyMember?_cons {name : String} (hunknown : name ∉ names) (value : Json) :
    names.mapM (onlyMember? ((some name, value) :: members)) =
      names.mapM (onlyMember? members) :=
  mapM_congr fun _ hmem =>
    onlyMember?_cons_of_ne (ne_of_mem_of_not_mem hmem hunknown).symm value

theorem fields?_unknown {name : String} (hunknown : name ∉ names) (value : Json) :
    fields? names (.object ((some name, value) :: members)) =
      fields? names (.object members) := by
  rw [fields?_object, fields?_object, mapM_onlyMember?_cons hunknown]
  rfl

theorem fields?_cons_self {name : String} (hfresh : some name ∉ members.map Prod.fst)
    (hunknown : name ∉ names) (value : Json) :
    fields? (name :: names) (.object ((some name, value) :: members)) =
      (fields? names (.object members)).map (value :: ·) := by
  rw [fields?_object, fields?_object, List.mapM_cons, onlyMember?_cons_self hfresh,
    mapM_onlyMember?_cons hunknown]
  change (if members.all fun member => member.1.isSome then _ else _) = _
  split
  · cases names.mapM (onlyMember? members) <;> rfl
  · rfl

end Members

theorem fields?_array {names : List String} {items : List Json}
    (hlength : items.length = names.length) :
    fields? names (.array items) = some items :=
  if_pos hlength

/-- A record has the values that it is made of as its fields. -/
theorem fields?_record {members : List (String × Json)}
    (hnodup : (members.map Prod.fst).Nodup) :
    fields? (members.map Prod.fst) (.record members) = some (members.map Prod.snd) := by
  induction members with
  | nil => rfl
  | cons member members ih =>
      obtain ⟨name, value⟩ := member
      obtain ⟨hname, hnodup⟩ := List.nodup_cons.mp hnodup
      have hfresh : some name ∉
          (members.map fun member => (some member.1, member.2)).map Prod.fst := by
        intro hmem
        obtain ⟨member, hmember, hfst⟩ := List.mem_map.mp (List.map_map ▸ hmem)
        exact hname (List.mem_map.mpr ⟨member, hmember, Option.some.inj hfst⟩)
      have hcons := fields?_cons_self hfresh hname value
      have hrest : fields? _ (.object _) = _ := ih hnodup
      rw [hrest] at hcons
      exact hcons

theorem fields?_zip {names : List String} {items : List Json} (hnodup : names.Nodup)
    (hlength : items.length = names.length) :
    fields? names (.record (names.zip items)) = some items := by
  have hnames : (names.zip items).map Prod.fst = names :=
    List.map_fst_zip (Nat.le_of_eq hlength.symm)
  have hitems : (names.zip items).map Prod.snd = items :=
    List.map_snd_zip (Nat.le_of_eq hlength)
  have hrecord : fields? ((names.zip items).map Prod.fst) (.record (names.zip items)) = _ :=
    fields?_record (hnames.symm ▸ hnodup)
  rwa [hnames, hitems] at hrecord

/-! ## Ways of writing a record -/

/-- One change in how a record with fields of the given names is written. -/
inductive Rewording (names : List String) : Json → Json → Prop where
  | order {members members' : List (Option String × Json)} (hperm : members.Perm members') :
      Rewording names (.object members) (.object members')
  | unknown {members : List (Option String × Json)} {name : String} {value : Json}
      (hunknown : name ∉ names) :
      Rewording names (.object members) (.object ((some name, value) :: members))
  | array {items : List Json} (hlength : items.length = names.length) :
      Rewording names (.record (names.zip items)) (.array items)
  | choice {members : List (Option String × Json)} {name : Option String} {value value' : Json}
      (hsame : SameChoice value value') :
      Rewording names (.object ((name, value) :: members))
        (.object ((name, value') :: members))

/-- Two ways of writing a record with fields of the given names. -/
def SameFields (names : List String) : Json → Json → Prop :=
  Relation.EqvGen (Rewording names)

/-- The values of the named fields, choices as strings. -/
def plainFields? (names : List String) (value : Json) : Option (List Json) :=
  (fields? names value).map (List.map plainChoice)

theorem plainFields?_object (names : List String) (members : List (Option String × Json)) :
    plainFields? names (.object members) =
      fields? names (.object (members.map fun member => (member.1, plainChoice member.2))) :=
  (fields?_map plainChoice).symm

theorem Rewording.plainFields?_eq {names : List String} {value value' : Json}
    (hnodup : names.Nodup)
    (hreword : Rewording names value value') :
    plainFields? names value = plainFields? names value' := by
  cases hreword with
  | order hperm =>
      unfold plainFields?
      rw [fields?_perm hperm]
  | unknown hunknown =>
      unfold plainFields?
      rw [fields?_unknown hunknown]
  | array hlength =>
      unfold plainFields?
      rw [fields?_zip hnodup hlength, fields?_array hlength]
  | choice hsame =>
      rw [plainFields?_object, plainFields?_object, List.map_cons, List.map_cons]
      dsimp only
      rw [hsame]

/-- The fields are the same however the record is written. -/
theorem SameFields.plainFields?_eq {names : List String} {value value' : Json}
    (hnodup : names.Nodup)
    (hsame : SameFields names value value') :
    plainFields? names value = plainFields? names value' := by
  induction hsame with
  | rel _ _ hreword => exact hreword.plainFields?_eq hnodup
  | refl _ => rfl
  | symm _ _ _ ih => exact ih.symm
  | trans _ _ _ _ _ ih ih' => exact ih.trans ih'

end Document

end SecantDescent
