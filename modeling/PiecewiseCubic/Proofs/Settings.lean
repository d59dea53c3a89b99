import PiecewiseCubic.Proofs.Path
import PiecewiseCubic.Settings

/-! # Settings in layers

    An option has the value of the topmost layer that gives it one: the
    overrides lie over the file, and the file over the defaults.  What a layer
    does not know differs: the file loses such keys and is warned about each,
    the overrides keep theirs.  An override tells about the value below it
    before it covers it, and as no key is overridden twice that is the value
    of the file or the default.  Over all layers lies the absolute path of
    the file. -/

namespace PiecewiseCubic

open Log (Record)

/-- Only a text is the same as a text. -/
theorem Literal.beq_text_iff {l : Literal} {t : String} :
    (l == .text t) = true ↔ l = .text t := by
  show Literal.same l (.text t) = true ↔ _
  cases l <;> simp [Literal.same, Literal.sameAtom, Literal.toInt?]

/-- In a list that has each key once, a key has the value that it is listed
    with. -/
theorem lookup_eq_some_iff_mem {β : Type} {l : List (String × β)}
    (distinct : (l.map Prod.fst).Nodup) {key : String} {v : β} :
    l.lookup key = some v ↔ (key, v) ∈ l := by
  induction l with
  | nil => simp
  | cons e l ih =>
      obtain ⟨k, w⟩ := e
      obtain ⟨hk, hrest⟩ := List.nodup_cons.mp distinct
      by_cases heq : key = k
      · subst heq
        have hnot : ∀ u, (key, u) ∉ l := fun u hu =>
          hk (List.mem_map.mpr ⟨_, hu, rfl⟩)
        simp [hnot, eq_comm]
      · have hne : (key == k) = false := beq_false_of_ne heq
        rw [List.lookup_cons, hne, List.mem_cons]
        simp [ih hrest, heq]

namespace Settings

variable {file : String} {es : List (Literal × Literal)}
  {overrides : List (String × Literal)} {key : String} {v : Literal}

/-! ## What the layers say -/

/-- Each key stands for one value. -/
def Mapping (es : List (Literal × Literal)) : Prop :=
  es.Pairwise fun e f => (e.1 == f.1) = false

/-- The options that the file of some settings stands for, with what is said
    about a file that is absent or empty: both hold no options. -/
inductive Supplies (path? : Option String) :
    Option Literal → List Record → List (Literal × Literal) → Prop where
  | absent (unasked : path? = none) :
      Supplies path? none [⟨.debug, "Configuration file " ++ defaultPath
        ++ " not found. Using defaults"⟩] []
  | empty :
      Supplies path? (some .null) [⟨.warning, "Configuration file "
        ++ path?.getD defaultPath ++ " is empty. Using default settings"⟩] []
  | options (es : List (Literal × Literal)) :
      Supplies path? (some (.record es)) [] es

/-- The value that an option has before the overrides. -/
inductive Configured (es : List (Literal × Literal)) :
    String → Literal → Prop where
  | file {key : String} {default v : Literal}
      (known : (key, default) ∈ defaults) (given : (.text key, v) ∈ es) :
      Configured es key v
  | default {key : String} {v : Literal} (known : (key, v) ∈ defaults)
      (missing : ∀ w, (.text key, w) ∉ es) : Configured es key v

/-- The value that a key has in the end, given the path of the file. -/
inductive Resolved (file : String) (es : List (Literal × Literal))
    (overrides : List (String × Literal)) : String → Literal → Prop where
  | path : Resolved file es overrides pathKey (.text file)
  | overridden {key : String} {v : Literal} (other : key ≠ pathKey)
      (given : (key, v) ∈ overrides) : Resolved file es overrides key v
  | configured {key : String} {v : Literal}
      (uncovered : ∀ w, (key, w) ∉ overrides) (value : Configured es key v) :
      Resolved file es overrides key v

/-- What is said about an entry of the file, called as it was given. -/
inductive Warns (path : String) : Literal × Literal → List Record → Prop where
  | known {key : String} {default v : Literal}
      (known : (key, default) ∈ defaults) : Warns path (.text key, v) []
  | unknown {key v : Literal}
      (unknown : ∀ name default, (name, default) ∈ defaults →
        key ≠ .text name) :
      Warns path (key, v) [⟨.warning, "Unknown option " ++ key.plain ++ " in "
        ++ path ++ " is ignored"⟩]

/-- What is said about an override. -/
inductive Tells (es : List (Literal × Literal)) :
    String × Literal → List Record → Prop where
  | changed {key : String} {v old : Literal} (value : Configured es key old)
      (differs : (v == old) = false) :
      Tells es (key, v) [⟨.info, "Option " ++ key ++ "=" ++ v.plain
        ++ " overrides the configured value " ++ old.plain⟩]
  | unchanged {key : String} {v old : Literal} (value : Configured es key old)
      (same : (v == old) = true) : Tells es (key, v) []
  | new {key : String} {v : Literal}
      (unknown : ∀ default, (key, default) ∉ defaults) : Tells es (key, v) []

/-- A log to which the entries of a list add their records in turn. -/
inductive Logs {β : Type} (adds : β → List Record → Prop) :
    List β → List Record → Prop where
  | nil : Logs adds [] []
  | cons {b : β} {bs : List β} {records log : List Record}
      (head : adds b records) (tail : Logs adds bs log) :
      Logs adds (b :: bs) (records ++ log)

/-- A literal that is the name of a family in some case. -/
def NamesFamily (l : Literal) : Prop :=
  ∃ (name : String) (f : Family),
    l = .text name ∧ String.ofList (name.toList.map Char.toLower) = f.name

/-! ## The file over the defaults -/

theorem nodup_defaults : (defaults.map Prod.fst).Nodup := by decide

theorem pathKey_not_mem (default : Literal) : (pathKey, default) ∉ defaults := by
  simp [pathKey, defaults]

theorem fileValue?_eq_none_iff :
    fileValue? es key = none ↔ ∀ w, (.text key, w) ∉ es := by
  rw [fileValue?, Option.map_eq_none_iff, List.find?_eq_none]
  constructor
  · exact fun h w hw => h _ hw (Literal.beq_text_iff.mpr rfl)
  · intro h e he hkey
    obtain ⟨k, w⟩ := e
    obtain rfl : k = .text key := Literal.beq_text_iff.mp hkey
    exact h w he

theorem fileValue?_eq_some_iff (mapping : Mapping es) :
    fileValue? es key = some v ↔ (.text key, v) ∈ es := by
  induction es with
  | nil => simp [fileValue?]
  | cons e es ih =>
      obtain ⟨k, w⟩ := e
      obtain ⟨hk, hrest⟩ := List.pairwise_cons.mp mapping
      have hcons : fileValue? ((k, w) :: es) key
          = if (k == .text key) = true then some w
            else fileValue? es key := by
        rw [fileValue?, List.find?_cons, fileValue?]
        cases k == .text key <;> rfl
      rw [hcons, List.mem_cons, Prod.mk.injEq]
      by_cases hsame : (k == .text key) = true
      · have hnot : (.text key, v) ∉ es := fun hv => by
          rw [hk _ hv] at hsame
          exact Bool.false_ne_true hsame
        have hkey := (Literal.beq_text_iff.mp hsame).symm
        rw [if_pos hsame, Option.some.injEq, or_iff_left hnot,
          and_iff_right hkey, eq_comm]
      · have heq : .text key ≠ k := fun h =>
          hsame (Literal.beq_text_iff.mpr h.symm)
        rw [if_neg hsame, ih hrest, or_iff_right fun h => heq h.1]

/-- A list with new values for its keys. -/
theorem lookup_map_values {β γ : Type} (f : String → β → γ)
    (l : List (String × β)) (key : String) :
    (l.map fun e => (e.1, f e.1 e.2)).lookup key
      = (l.lookup key).map (f key) := by
  induction l with
  | nil => rfl
  | cons e l ih =>
      obtain ⟨k, w⟩ := e
      rw [List.map_cons, List.lookup_cons, List.lookup_cons]
      by_cases heq : key = k
      · subst heq
        simp
      · have hne : (key == k) = false := beq_false_of_ne heq
        rw [hne]
        exact ih

theorem get?_ofFile (es : List (Literal × Literal)) (key : String) :
    (ofFile es).get? key
      = (defaults.lookup key).map fun d => (fileValue? es key).getD d :=
  lookup_map_values (fun k d => (fileValue? es k).getD d) defaults key

/-- **THE FILE OVER THE DEFAULTS**: only the known options have a value. -/
theorem get?_ofFile_eq_some_iff (mapping : Mapping es) :
    (ofFile es).get? key = some v ↔ Configured es key v := by
  rw [get?_ofFile, Option.map_eq_some_iff]
  simp only [lookup_eq_some_iff_mem nodup_defaults]
  constructor
  · rintro ⟨default, known, hv⟩
    cases hfile : fileValue? es key with
    | some w =>
        rw [hfile, Option.getD_some] at hv
        subst hv
        exact .file known ((fileValue?_eq_some_iff mapping).mp hfile)
    | none =>
        rw [hfile, Option.getD_none] at hv
        subst hv
        exact .default known (fileValue?_eq_none_iff.mp hfile)
  · intro h
    cases h with
    | file known given =>
        refine ⟨_, known, ?_⟩
        rw [(fileValue?_eq_some_iff mapping).mpr given, Option.getD_some]
    | default known missing =>
        refine ⟨_, known, ?_⟩
        rw [fileValue?_eq_none_iff.mpr missing, Option.getD_none]

/-- Every known option has a value. -/
theorem get?_ofFile_eq_none_iff :
    (ofFile es).get? key = none ↔ ∀ default, (key, default) ∉ defaults := by
  rw [get?_ofFile, Option.map_eq_none_iff, Option.eq_none_iff_forall_ne_some]
  simp only [ne_eq, lookup_eq_some_iff_mem nodup_defaults]

/-- **A WARNING** for each unknown key of the file. -/
theorem logs_unknownWarnings (path : String) (es : List (Literal × Literal)) :
    Logs (Warns path) es (unknownWarnings path es) := by
  induction es with
  | nil => exact .nil
  | cons e es ih =>
      obtain ⟨k, v⟩ := e
      have hcons : unknownWarnings path ((k, v) :: es)
          = (if defaults.any fun d => k == .text d.1 then []
              else [⟨.warning, "Unknown option " ++ k.plain ++ " in " ++ path
                ++ " is ignored"⟩]) ++ unknownWarnings path es := by
        rw [unknownWarnings, List.filter_cons]
        cases defaults.any fun d => k == .text d.1 <;> rfl
      rw [hcons]
      refine .cons ?_ ih
      split_ifs with hknown
      · obtain ⟨d, hd, hk⟩ := List.any_eq_true.mp hknown
        rw [Literal.beq_text_iff.mp hk]
        exact .known hd
      · refine .unknown fun name default hd hk => hknown ?_
        exact List.any_eq_true.mpr ⟨_, hd, Literal.beq_text_iff.mpr hk⟩

/-! ## The overrides over both -/

/-- **THE OVERRIDES** lie over what there was. -/
theorem get?_overrideAll (distinct : (overrides.map Prod.fst).Nodup)
    (s : Settings) (key : String) :
    (s.overrideAll overrides).2.get? key
      = (overrides.lookup key).or (s.get? key) := by
  induction overrides generalizing s with
  | nil => rfl
  | cons o overrides ih =>
      obtain ⟨k, v⟩ := o
      obtain ⟨hk, hrest⟩ := List.nodup_cons.mp distinct
      show ((s.insert k v).overrideAll overrides).2.get? key = _
      rw [ih hrest, List.lookup_cons]
      by_cases heq : key = k
      · subst heq
        have hnone : overrides.lookup key = none := by
          rw [Option.eq_none_iff_forall_ne_some]
          intro w hw
          have hmem := (lookup_eq_some_iff_mem hrest).mp hw
          exact hk (List.mem_map.mpr ⟨_, hmem, rfl⟩)
        rw [hnone, get?_insert_self]
        simp
      · have hne : (key == k) = false := beq_false_of_ne heq
        rw [hne, get?_insert_of_ne s v heq]

/-- **ONE OVERRIDE** tells about the value that it covers. -/
theorem tells_override (mapping : Mapping es) {s : Settings}
    (h : s.get? key = (ofFile es).get? key) :
    Tells es (key, v) (s.override key v).1 := by
  cases hold : (ofFile es).get? key with
  | none =>
      have hrecords : (s.override key v).1 = [] := by
        rw [override, h, hold]
      rw [hrecords]
      exact .new (get?_ofFile_eq_none_iff.mp hold)
  | some old =>
      have value := (get?_ofFile_eq_some_iff mapping).mp hold
      have hrecords : (s.override key v).1
          = if (v == old) = true then [] else [⟨.info, "Option " ++ key ++ "="
            ++ v.plain ++ " overrides the configured value "
            ++ old.plain⟩] := by
        rw [override, h, hold]
      rw [hrecords]
      cases hsame : v == old with
      | true => exact .unchanged value hsame
      | false => exact .changed value hsame

/-- **ALL OVERRIDES** tell about the values of the file and the defaults, as
    none covers another one. -/
theorem logs_overrideAll (mapping : Mapping es)
    (distinct : (overrides.map Prod.fst).Nodup) {s : Settings}
    (h : ∀ o ∈ overrides, s.get? o.1 = (ofFile es).get? o.1) :
    Logs (Tells es) overrides (s.overrideAll overrides).1 := by
  induction overrides generalizing s with
  | nil => exact .nil
  | cons o overrides ih =>
      obtain ⟨k, v⟩ := o
      obtain ⟨hk, hrest⟩ := List.nodup_cons.mp distinct
      refine .cons (tells_override mapping (h _ List.mem_cons_self))
        (ih hrest fun o ho => ?_)
      have hne : o.1 ≠ k := fun heq =>
        hk (List.mem_map.mpr ⟨o, ho, heq⟩)
      rw [← h o (List.mem_cons_of_mem _ ho)]
      exact get?_insert_of_ne s v hne

/-! ## All layers -/

theorem Supplies.load_eq {path? : Option String} {document : Option Literal}
    {opening : List Record} (h : Supplies path? document opening es) :
    load path? document = (opening, .ok es) := by
  cases h with
  | absent unasked =>
      rw [unasked]
      rfl
  | empty => rfl
  | options es => rfl

/-- **THE PATH OVER ALL LAYERS**: what each key has in the end. -/
theorem get?_insert_overrideAll_eq_some_iff (mapping : Mapping es)
    (distinct : (overrides.map Prod.fst).Nodup) :
    (((ofFile es).overrideAll overrides).2.insert pathKey (.text file)).get?
        key = some v ↔ Resolved file es overrides key v := by
  by_cases hpath : key = pathKey
  · subst hpath
    rw [get?_insert_self, Option.some.injEq]
    constructor
    · rintro rfl
      exact .path
    · intro h
      cases h with
      | path => rfl
      | overridden other given => exact absurd rfl other
      | configured uncovered value =>
          cases value with
          | file known given => exact absurd known (pathKey_not_mem _)
          | default known missing => exact absurd known (pathKey_not_mem _)
  · rw [get?_insert_of_ne _ _ hpath, get?_overrideAll distinct,
      Option.or_eq_some_iff, lookup_eq_some_iff_mem distinct,
      get?_ofFile_eq_some_iff mapping, Option.eq_none_iff_forall_ne_some]
    simp only [ne_eq, lookup_eq_some_iff_mem distinct]
    constructor
    · rintro (given | ⟨uncovered, value⟩)
      · exact .overridden hpath given
      · exact .configured uncovered value
    · intro h
      cases h with
      | path => exact absurd rfl hpath
      | overridden other given => exact Or.inl given
      | configured uncovered value => exact Or.inr ⟨uncovered, value⟩

/-- **EACH KEY** has one value in the end. -/
theorem Resolved.unique {w : Literal} (mapping : Mapping es)
    (distinct : (overrides.map Prod.fst).Nodup)
    (hv : Resolved file es overrides key v)
    (hw : Resolved file es overrides key w) : v = w := by
  have hget := (get?_insert_overrideAll_eq_some_iff mapping distinct).mpr hv
  have hget' := (get?_insert_overrideAll_eq_some_iff mapping distinct).mpr hw
  exact Option.some.inj (hget.symm.trans hget')

end Settings

theorem Family.ofName?_isSome_iff (s : String) :
    (ofName? s).isSome = true
      ↔ ∃ f : Family, String.ofList (s.toList.map Char.toLower) = f.name := by
  rw [ofName?]
  split
  case h_1 h => exact iff_of_true rfl ⟨.full, h⟩
  case h_2 h => exact iff_of_true rfl ⟨.natural, h⟩
  case h_3 h => exact iff_of_true rfl ⟨.periodic, h⟩
  case h_4 h => exact iff_of_true rfl ⟨.monotonic, h⟩
  case h_5 h₁ h₂ h₃ h₄ =>
    refine iff_of_false Bool.false_ne_true ?_
    rintro ⟨f, hf⟩
    cases f with
    | full => exact h₁ hf
    | natural => exact h₂ hf
    | periodic => exact h₃ hf
    | monotonic => exact h₄ hf

namespace Settings

theorem isSome_ofLiteral?_iff (l : Literal) :
    (Family.ofLiteral? l).isSome = true ↔ NamesFamily l := by
  cases l with
  | text name =>
      rw [Family.ofLiteral?, Family.ofName?_isSome_iff]
      constructor
      · rintro ⟨f, hf⟩
        exact ⟨name, f, rfl, hf⟩
      · rintro ⟨_, f, ⟨⟩, hf⟩
        exact ⟨f, hf⟩
  | _ =>
      refine iff_of_false (by simp [Family.ofLiteral?]) ?_
      rintro ⟨name, f, h, -⟩
      exact absurd h (by simp)

/-- The family is an option, so it has a value below the path. -/
theorem resolved_family (mapping : Mapping es)
    (distinct : (overrides.map Prod.fst).Nodup) (file : String) :
    Resolved file es overrides "spline_type"
      (((ofFile es).overrideAll overrides).2.get "spline_type") := by
  have hkey : "spline_type" ≠ pathKey := by decide
  have hsome : ((ofFile es).overrideAll overrides).2.get? "spline_type"
      ≠ none := by
    rw [get?_overrideAll distinct, ne_eq, Option.or_eq_none_iff]
    rintro ⟨-, hnone⟩
    exact get?_ofFile_eq_none_iff.mp hnone (.text "natural") (by simp [defaults])
  obtain ⟨family, hfamily⟩ := Option.ne_none_iff_exists'.mp hsome
  have hget : ((ofFile es).overrideAll overrides).2.get "spline_type"
      = family := by
    rw [get, hfamily]
    rfl
  rw [hget, ← get?_insert_overrideAll_eq_some_iff mapping distinct,
    get?_insert_of_ne _ _ hkey]
  exact hfamily

/-- **SETTINGS IN LAYERS**: for every file with options, the file that is
    absent or empty having none, and all overrides there are settings or the
    family names none.  The settings have the values that the layers give, and
    no keys but theirs; over all layers lies the absolute path of the file,
    which has no dots if the working directory is known by an absolute path.
    The log says what is to be said of the file as a whole, then warns about
    each unknown key in the order of the file, and then tells of each override
    with another value than that below it, in the order of the overrides.  Only
    the family that counts in the end is looked up. -/
theorem resolve_layers (directory : String) {path? : Option String}
    {document : Option Literal} {opening : List Record}
    (supplied : Supplies path? document opening es) (mapping : Mapping es)
    (distinct : (overrides.map Prod.fst).Nodup) :
    ∃ (file : String) (warnings infos : List Record) (family : Literal),
      file = Path.absolute directory (path?.getD defaultPath)
        ∧ (Path.isAbsolute directory = true →
          Path.isAbsolute file = true
            ∧ ∀ name ∈ Path.components file, name ≠ "." ∧ name ≠ "..")
        ∧ (resolve directory path? document overrides).1
          = opening ++ warnings ++ infos
        ∧ Logs (Warns (path?.getD defaultPath)) es warnings
        ∧ Logs (Tells es) overrides infos
        ∧ Resolved file es overrides "spline_type" family
        ∧ ((NamesFamily family
            ∧ ∃ s, (resolve directory path? document overrides).2 = .ok s
              ∧ ∀ key v, s.get? key = some v
                ↔ Resolved file es overrides key v)
          ∨ ¬ NamesFamily family
            ∧ (resolve directory path? document overrides).2
              = .error (.unknownFamily family)) := by
  have hresolve : resolve directory path? document overrides
      = (opening ++ unknownWarnings (path?.getD defaultPath) es
          ++ ((ofFile es).overrideAll overrides).1,
        if (Family.ofLiteral? (((ofFile es).overrideAll overrides).2.get
            "spline_type")).isSome then
          .ok (((ofFile es).overrideAll overrides).2.insert pathKey
            (.text (Path.absolute directory (path?.getD defaultPath))))
        else .error (.unknownFamily
          (((ofFile es).overrideAll overrides).2.get "spline_type"))) := by
    rw [resolve, supplied.load_eq]
    dsimp only
    split_ifs <;> rfl
  refine ⟨_, _, _, _, rfl, fun rooted => Path.absolute_tidy rooted _,
    congrArg Prod.fst hresolve, logs_unknownWarnings _ es,
    logs_overrideAll mapping distinct fun _ _ => rfl,
    resolved_family mapping distinct _, ?_⟩
  rw [hresolve]
  by_cases hnamed : NamesFamily
      (((ofFile es).overrideAll overrides).2.get "spline_type")
  · refine Or.inl ⟨hnamed, _, if_pos ?_, fun key v =>
      get?_insert_overrideAll_eq_some_iff mapping distinct⟩
    exact (isSome_ofLiteral?_iff _).mpr hnamed
  · exact Or.inr ⟨hnamed, if_neg (mt (isSome_ofLiteral?_iff _).mp hnamed)⟩

/-- A file beside the working directory with an unknown family, an unknown key
    and an option without a value, under overrides that name a family and
    another path. -/
theorem resolve_layers_renamed :
    ∃ (es : List (Literal × Literal)) (overrides : List (String × Literal))
        (s : Settings),
      es = [(.text "spline_type", .text "akima"), (.text "smoothing", .int 3),
          (.text "npoints", .null)]
        ∧ overrides = [("spline_type", .text "Monotonic"),
          ("config_file_path", .text "elsewhere")]
        ∧ Mapping es ∧ (overrides.map Prod.fst).Nodup
        ∧ Path.isAbsolute "/home/spline" = true
        ∧ (resolve "/home/spline" (some "../conf.yaml") (some (.record es))
            overrides).2 = .ok s
        ∧ s.get? "npoints" = some .null
        ∧ s.get? "config_file_path" = some (.text "/home/conf.yaml") := by
  obtain ⟨es, hes⟩ : ∃ es : List (Literal × Literal),
      es = [(.text "spline_type", .text "akima"), (.text "smoothing", .int 3),
        (.text "npoints", .null)] := ⟨_, rfl⟩
  obtain ⟨overrides, hoverrides⟩ : ∃ overrides : List (String × Literal),
      overrides = [("spline_type", .text "Monotonic"),
        ("config_file_path", .text "elsewhere")] := ⟨_, rfl⟩
  have mapping : Mapping es := by
    rw [hes, Mapping]
    decide +kernel
  have distinct : (overrides.map Prod.fst).Nodup := by
    rw [hoverrides]
    decide
  have hpath : Path.absolute "/home/spline" "../conf.yaml"
      = "/home/conf.yaml" := by
    decide +kernel
  obtain ⟨file, -, -, family, hfile, -, -, -, -, hfamily, hresult⟩ :=
    resolve_layers "/home/spline"
      (.options es : Supplies (some "../conf.yaml") _ _ es) mapping distinct
  obtain rfl : file = "/home/conf.yaml" := hfile.trans hpath
  have hrenamed : ("spline_type", .text "Monotonic") ∈ overrides := by
    simp [hoverrides]
  obtain rfl := hfamily.unique mapping distinct
    (.overridden (by decide) hrenamed)
  have hnamed : NamesFamily (.text "Monotonic") :=
    ⟨"Monotonic", .monotonic, rfl, by decide +kernel⟩
  obtain ⟨-, s, hs, hvalues⟩ | ⟨hunnamed, -⟩ := hresult
  · refine ⟨es, overrides, s, hes, hoverrides, mapping, distinct, rfl, hs, ?_,
      (hvalues _ _).mpr .path⟩
    have hknown : ("npoints", Literal.int 100) ∈ defaults := by
      simp [defaults]
    refine (hvalues _ _).mpr (.configured ?_ (.file hknown ?_))
    · simp [hoverrides]
    · simp [hes]
  · exact absurd hnamed hunnamed

end Settings

end PiecewiseCubic
