import RollupInput.Proofs.Declaration.Bases
import RollupInput.Proofs.Mapped

/-!
# Reading written parameters

Reading the text of a written parameter comes to what its names of types give, whatever its layout:
the parameter that it stands for, or a fault exactly if one of the names is unknown.
-/

namespace RollupInput.Declaration

open Abi

/-- Nested texts with commas between them are nested. -/
theorem nested_join {parts : List (List Char)} (h : ∀ cs ∈ parts, Nested (· ≠ ',') cs) :
    Nested (fun _ => True) (Text.join [','] parts) := by
  induction parts with
  | nil => exact .nil
  | cons cs rest ih =>
    have hcs : Nested (fun _ => True) cs := (h cs List.mem_cons_self).mono fun _ _ => trivial
    cases rest with
    | nil => exact hcs
    | cons ds rest =>
      have hrest := ih fun x hx => h x (List.mem_cons_of_mem cs hx)
      exact hcs.append (.plain ⟨rfl, rfl⟩ trivial hrest)

namespace Written

/-- The base of the type of a written parameter. -/
def base : Written → List Char
  | .elementary type _ => type
  | .emptyTuple marked gap _ => tupleText marked gap
  | .tuple marked fields _ => tupleText marked (Text.join [','] (texts fields))

/-- What stands around the base. -/
def around : Written → Surroundings
  | .elementary _ around => around
  | .emptyTuple _ _ around => around
  | .tuple _ _ around => around

/-- The text of a parameter is its base with what stands around it. -/
theorem text_eq (w : Written) : w.text = w.around.text w.base := by
  cases w <;> rw [Written.text] <;> rfl

/-- What stands around the base is laid out if the parameter is. -/
theorem isLaidOut_around {w : Written} (h : w.IsLaidOut) : w.around.IsLaidOut := by
  cases w with
  | elementary type around =>
    rw [Written.IsLaidOut] at h
    exact h
  | emptyTuple marked gap around =>
    rw [Written.IsLaidOut] at h
    exact h.2
  | tuple marked fields around =>
    rw [Written.IsLaidOut] at h
    exact h.2.2

end Written

mutual

/-- The base of a written parameter can be the base of a type. -/
theorem Written.isBase (w : Written) (h : w.IsLaidOut) (hnames : ∀ n ∈ w.typeNames, IsTypeName n) :
    IsBase w.base := by
  cases w with
  | elementary type around => exact isBase_of_isTypeName (hnames type List.mem_cons_self)
  | emptyTuple marked gap around =>
    rw [Written.IsLaidOut] at h
    exact isBase_tupleText (.of_forall (fun c hc => (isPlain_of_isBlank (h.1 c hc)).1)
      fun _ _ => trivial)
  | tuple marked fields around =>
    rw [Written.IsLaidOut] at h
    rw [Written.typeNames] at hnames
    exact isBase_tupleText (nested_join (nested_texts fields h.2.1 hnames))

/-- The texts of written parameters are nested and hold no comma outside of brackets. -/
theorem nested_texts (ws : List Written) (h : AreLaidOut ws)
    (hnames : ∀ n ∈ typeNamesOf ws, IsTypeName n) : ∀ cs ∈ texts ws, Nested (· ≠ ',') cs := by
  cases ws with
  | nil =>
    intro cs hcs
    cases hcs
  | cons w rest =>
    rw [AreLaidOut] at h
    rw [typeNamesOf] at hnames
    have hw := Written.isBase w h.1 fun n hn => hnames n (List.mem_append_left _ hn)
    have hrest := nested_texts rest h.2 fun n hn => hnames n (List.mem_append_right _ hn)
    intro cs hcs
    rw [texts] at hcs
    rcases List.mem_cons.mp hcs with rfl | hcs
    · rw [w.text_eq]
      exact w.around.nested_text (Written.isLaidOut_around h.1) hw
    · exact hrest cs hcs

end

/-- Texts of written parameters, joined with commas, are cut apart again. -/
theorem cutAtSeparators_texts {ws : List Written} (hne : ws ≠ []) (h : AreLaidOut ws)
    (hnames : ∀ n ∈ typeNamesOf ws, IsTypeName n) :
    cutAtSeparators ',' (Text.join [','] (texts ws)) = texts ws := by
  refine cutAtSeparators_join ⟨rfl, rfl⟩ ?_ (nested_texts ws h hnames)
  cases ws with
  | nil => exact absurd rfl hne
  | cons w rest =>
    rw [texts]
    exact List.cons_ne_nil _ _

/-- Texts of written parameters are not only made of blanks. -/
theorem trim_texts_ne_nil {ws : List Written} (hne : ws ≠ []) (h : AreLaidOut ws)
    (hnames : ∀ n ∈ typeNamesOf ws, IsTypeName n) :
    Text.trim (Text.join [','] (texts ws)) ≠ [] := by
  cases ws with
  | nil => exact absurd rfl hne
  | cons w rest =>
    rw [AreLaidOut] at h
    rw [typeNamesOf] at hnames
    intro htrim
    have hgap := Text.isGap_of_trim htrim
    have hw : Text.IsGap w.text := by
      intro c hc
      refine hgap c (Text.mem_join ?_ hc)
      rw [texts]
      exact List.mem_cons_self
    have hbase := w.isBase h.1 fun n hn => hnames n (List.mem_append_left _ hn)
    rw [w.text_eq] at hw
    exact w.around.trim_text_ne_nil (Written.isLaidOut_around h.1) hbase (Text.trim_of_isGap hw)

mutual

/-- What reading a written parameter comes to, if its types are read by their names. -/
def Written.outcome : Written → Except Fault Param
  | .elementary type around => (elementary type).map fun t => around.param t []
  | .emptyTuple _ _ around => .ok (around.param (.tuple []) [])
  | .tuple _ fields around =>
    (outcomes fields).map fun components =>
      around.param (.tuple (components.map Param.type)) components

/-- What reading some written parameters comes to. -/
def outcomes : List Written → Except Fault (List Param)
  | [] => .ok []
  | w :: rest =>
    match w.outcome with
    | .error e => .error e
    | .ok p => (outcomes rest).map (p :: ·)

end

mutual

/-- Reading the text of a written parameter comes to what reading by the names comes to, whatever
the layout. -/
theorem Written.readParam_text (w : Written) (h : w.IsLaidOut)
    (hnames : ∀ n ∈ w.typeNames, IsTypeName n) : readParam [] [] w.text = w.outcome := by
  have hbase := w.isBase h hnames
  rw [w.text_eq, w.around.readParam_text (Written.isLaidOut_around h) hbase]
  cases w with
  | elementary type around =>
    have hresolve := resolveBase_of_isTypeName (hnames type List.mem_cons_self)
    rw [Written.outcome, Written.base, hresolve, map_map]
    rfl
  | emptyTuple marked gap around =>
    rw [Written.IsLaidOut] at h
    rw [Written.outcome, Written.base, resolveBase, tupleInner_tupleText]
    dsimp only
    rw [Text.trim_of_isGap h.1]
    rfl
  | tuple marked fields around =>
    rw [Written.IsLaidOut] at h
    rw [Written.typeNames] at hnames
    have hinner : ¬(Text.trim (Text.join [','] (texts fields))).isEmpty = true := by
      rw [List.isEmpty_iff]
      exact trim_texts_ne_nil h.1 h.2.1 hnames
    rw [Written.outcome, Written.base, resolveBase, tupleInner_tupleText]
    dsimp only
    rw [if_neg hinner, cutAtSeparators_texts h.1 h.2.1 hnames,
      readParams_texts fields h.2.1 hnames, map_map]
    rfl

/-- Reading the texts of written parameters comes to what reading by the names comes to. -/
theorem readParams_texts (ws : List Written) (h : AreLaidOut ws)
    (hnames : ∀ n ∈ typeNamesOf ws, IsTypeName n) :
    readParams [] [] (texts ws) = outcomes ws := by
  cases ws with
  | nil => rw [texts, readParams, outcomes]
  | cons w rest =>
    rw [AreLaidOut] at h
    rw [typeNamesOf] at hnames
    have hw := Written.readParam_text w h.1 fun n hn => hnames n (List.mem_append_left _ hn)
    have hrest := readParams_texts rest h.2 fun n hn => hnames n (List.mem_append_right _ hn)
    rw [texts, readParams, hw, hrest]
    rfl

end

mutual

/-- A written parameter is read as the parameter that it stands for, if its names are known. -/
theorem Written.toOption_outcome (w : Written) :
    w.outcome.toOption = w.param? fun n => (elementary n).toOption := by
  cases w with
  | elementary type around => rw [Written.outcome, Written.param?, toOption_map]
  | emptyTuple marked gap around =>
    rw [Written.outcome, Written.param?]
    rfl
  | tuple marked fields around =>
    rw [Written.outcome, Written.param?, toOption_map, toOption_outcomes fields]

/-- Written parameters are read as the parameters that they stand for, if their names are known. -/
theorem toOption_outcomes (ws : List Written) :
    (outcomes ws).toOption = params? (fun n => (elementary n).toOption) ws := by
  cases ws with
  | nil =>
    rw [outcomes, params?]
    rfl
  | cons w rest =>
    rw [outcomes, params?, ← Written.toOption_outcome w, ← toOption_outcomes rest]
    cases w.outcome with
    | error e => rfl
    | ok p =>
      dsimp only
      rw [toOption_map]
      rfl

end

end RollupInput.Declaration
