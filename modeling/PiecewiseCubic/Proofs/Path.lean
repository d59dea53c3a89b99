import Mathlib
import PiecewiseCubic.Path

/-! # Absolute paths

    A path is read as the components that it was written with, since none of
    them has a slash.  Each component that is followed leaves a directory
    without dots if it is one below the directory above all others: a dot stays
    there and two dots take a name away.  So an absolute path has no dots,
    whatever path and working directory it was made of. -/

namespace PiecewiseCubic

namespace Text

variable {p : Char → Bool} {c : Char} {cs ds : List Char}

/-! ## Parts of a text -/

theorem splitWhere_cons_of_pos (hc : p c = true) (cs : List Char) :
    splitWhere p (c :: cs) = [] :: splitWhere p cs := by
  rw [splitWhere]
  cases hsplit : splitWhere p cs with
  | nil => exact absurd hsplit (splitWhere_ne_nil p cs)
  | cons part parts => exact if_pos hc

theorem splitWhere_cons_of_neg (hc : p c = false) (cs : List Char) :
    ∃ part parts, splitWhere p cs = part :: parts
      ∧ splitWhere p (c :: cs) = (c :: part) :: parts := by
  rw [splitWhere]
  cases hsplit : splitWhere p cs with
  | nil => exact absurd hsplit (splitWhere_ne_nil p cs)
  | cons part parts =>
      exact ⟨part, parts, rfl, if_neg (Bool.eq_false_iff.mp hc)⟩

/-- A part has no character that parts the text. -/
theorem not_parted {part : List Char} (h : part ∈ splitWhere p cs) :
    ∀ c ∈ part, p c = false := by
  induction cs generalizing part with
  | nil =>
      obtain rfl := List.mem_singleton.mp h
      exact fun c hc => absurd hc List.not_mem_nil
  | cons c cs ih =>
      cases hc : p c with
      | true =>
          rw [splitWhere_cons_of_pos hc] at h
          rcases List.mem_cons.mp h with rfl | hpart
          · exact fun c hc => absurd hc List.not_mem_nil
          · exact ih hpart
      | false =>
          obtain ⟨first, rest, hsplit, hcons⟩ := splitWhere_cons_of_neg hc cs
          rw [hcons] at h
          rw [hsplit] at ih
          rcases List.mem_cons.mp h with rfl | hpart
          · intro d hd
            rcases List.mem_cons.mp hd with rfl | hd
            · exact hc
            · exact ih List.mem_cons_self d hd
          · exact ih (List.mem_cons_of_mem _ hpart)

/-- A text that nothing parts is a part. -/
theorem splitWhere_of_not_parted (h : ∀ c ∈ cs, p c = false) :
    splitWhere p cs = [cs] := by
  induction cs with
  | nil => rfl
  | cons c cs ih =>
      obtain ⟨hc, hcs⟩ := List.forall_mem_cons.mp h
      obtain ⟨part, parts, hsplit, hcons⟩ := splitWhere_cons_of_neg hc cs
      obtain ⟨rfl, rfl⟩ := List.cons.inj ((ih hcs).symm.trans hsplit)
      exact hcons

/-- The first part ends where the text is parted first. -/
theorem splitWhere_append (h : ∀ c ∈ cs, p c = false) (hc : p c = true)
    (ds : List Char) :
    splitWhere p (cs ++ c :: ds) = cs :: splitWhere p ds := by
  induction cs with
  | nil => exact splitWhere_cons_of_pos hc ds
  | cons d cs ih =>
      obtain ⟨hd, hcs⟩ := List.forall_mem_cons.mp h
      obtain ⟨part, parts, hsplit, hcons⟩ :=
        splitWhere_cons_of_neg hd (cs ++ c :: ds)
      obtain ⟨rfl, rfl⟩ := List.cons.inj ((ih hcs).symm.trans hsplit)
      exact hcons

/-- **PARTS ARE READ BACK** from the text that they make up. -/
theorem splitWhere_intercalate (hc : p c = true) {parts : List (List Char)}
    (h : ∀ part ∈ parts, ∀ c ∈ part, p c = false) (hne : parts ≠ []) :
    splitWhere p ([c].intercalate parts) = parts := by
  induction parts with
  | nil => exact absurd rfl hne
  | cons part parts ih =>
      obtain ⟨hpart, hparts⟩ := List.forall_mem_cons.mp h
      cases parts with
      | nil =>
          rw [List.intercalate_singleton]
          exact splitWhere_of_not_parted hpart
      | cons next rest =>
          rw [List.intercalate_cons_cons, List.append_assoc,
            List.singleton_append, splitWhere_append hpart hc,
            ih hparts (List.cons_ne_nil next rest)]

end Text

namespace Path

open Text

variable {directory path : String} {d : Directory}

/-! ## Components -/

/-- A component is not empty and has no slash. -/
def IsComponent (name : String) : Prop :=
  name ≠ "" ∧ ∀ c ∈ name.toList, (c == '/') = false

theorem isComponent_of_mem {name : String} (h : name ∈ components path) :
    IsComponent name := by
  obtain ⟨part, hpart, rfl⟩ := List.mem_map.mp h
  obtain ⟨hsplit, hne⟩ := List.mem_filter.mp hpart
  constructor
  · rintro hempty
    have hnil : part = [] := by
      rw [← String.toList_ofList (l := part), hempty]
      rfl
    rw [hnil] at hne
    exact absurd hne Bool.false_ne_true
  · rw [String.toList_ofList]
    exact not_parted hsplit

/-- A slash in front of a path is no component. -/
theorem components_slash (path : String) :
    components ("/" ++ path) = components path := by
  have hlist : ("/" ++ path).toList = '/' :: path.toList := by
    rw [String.toList_append]
    rfl
  rw [components, hlist, splitWhere_cons_of_pos rfl]
  rfl

/-- **COMPONENTS ARE READ BACK** from the path that they make up. -/
theorem components_intercalate {names : List String}
    (h : ∀ name ∈ names, IsComponent name) :
    components ("/".intercalate names) = names := by
  cases names with
  | nil => rfl
  | cons first rest =>
      have hsplit : splitWhere (· == '/') ("/".intercalate (first :: rest)).toList
          = (first :: rest).map String.toList := by
        rw [String.toList_intercalate]
        refine splitWhere_intercalate rfl ?_ (List.cons_ne_nil _ _)
        intro part hpart
        obtain ⟨name, hname, rfl⟩ := List.mem_map.mp hpart
        exact (h name hname).2
      have hkept : ((first :: rest).map String.toList).filter
          (fun part => !part.isEmpty) = (first :: rest).map String.toList := by
        refine List.filter_eq_self.mpr fun part hpart => ?_
        obtain ⟨name, hname, rfl⟩ := List.mem_map.mp hpart
        have hne := (h name hname).1
        simpa using hne
      rw [components, hsplit, hkept, List.map_map]
      exact (List.map_congr_left fun name _ => String.ofList_toList).trans
        (List.map_id _)

/-! ## Directories -/

/-- What stays true of a directory on the way: its names are components, and
    none of them is a dot or two if it is below the one above all others. -/
structure Tidy (d : Directory) : Prop where
  isComponent : ∀ name ∈ d.names, IsComponent name
  no_dots : d.absolute = true → ∀ name ∈ d.names, name ≠ "." ∧ name ≠ ".."

theorem tidy_start (path : String) : Tidy (start path) where
  isComponent _ hname := absurd hname List.not_mem_nil
  no_dots _ _ hname := absurd hname List.not_mem_nil

theorem Tidy.child (h : Tidy d) {name : String} (hname : IsComponent name)
    (no_dots : d.absolute = true → name ≠ "." ∧ name ≠ "..") :
    Tidy (d.child name) where
  isComponent other hother := by
    rcases List.mem_append.mp hother with hmem | hmem
    · exact h.isComponent other hmem
    · rwa [List.mem_singleton.mp hmem]
  no_dots habs other hother := by
    rcases List.mem_append.mp hother with hmem | hmem
    · exact h.no_dots habs other hmem
    · rw [List.mem_singleton.mp hmem]
      exact no_dots habs

/-- **TWO DOTS** take a name away, or stand above the current directory. -/
theorem Tidy.parent (h : Tidy d) (hdots : IsComponent "..") :
    Tidy d.parent := by
  have hless : Tidy { d with names := d.names.dropLast } :=
    ⟨fun name hname => h.isComponent name (List.mem_of_mem_dropLast hname),
      fun habs name hname =>
        h.no_dots habs name (List.mem_of_mem_dropLast hname)⟩
  rw [Directory.parent]
  split_ifs with habs
  · exact hless
  · have hup : Tidy (d.child "..") :=
      h.child hdots fun habs' => absurd habs' habs
    split
    · exact hup
    · exact hup
    · exact hless

theorem absolute_follow (d : Directory) (name : String) :
    (d.follow name).absolute = d.absolute := by
  rw [Directory.follow]
  split_ifs
  · rfl
  · rw [Directory.parent]
    split_ifs
    · rfl
    · split <;> rfl
  · rfl

/-- **ONE COMPONENT** that is followed. -/
theorem Tidy.follow (h : Tidy d) {name : String} (hname : IsComponent name) :
    Tidy (d.follow name) := by
  rw [Directory.follow]
  split_ifs with hdot hdots
  · exact h
  · exact h.parent (hdots ▸ hname)
  · exact h.child hname fun _ => ⟨hdot, hdots⟩

/-- **THE WAY** along components stays below the directory it begins at. -/
theorem Tidy.foldl_follow (h : Tidy d) {names : List String}
    (hnames : ∀ name ∈ names, IsComponent name) :
    Tidy (names.foldl Directory.follow d)
      ∧ (names.foldl Directory.follow d).absolute = d.absolute := by
  induction names generalizing d with
  | nil => exact ⟨h, rfl⟩
  | cons name names ih =>
      obtain ⟨hname, hrest⟩ := List.forall_mem_cons.mp hnames
      obtain ⟨htidy, habs⟩ := ih (h.follow hname) hrest
      exact ⟨htidy, habs.trans (absolute_follow d name)⟩

theorem tidy_plainWay (path : String) :
    Tidy (plainWay path) ∧ (plainWay path).absolute = isAbsolute path :=
  (tidy_start path).foldl_follow fun _ => isComponent_of_mem

/-! ## Absolute paths -/

theorem isAbsolute_slash (path : String) : isAbsolute ("/" ++ path) = true := by
  rw [isAbsolute, String.toList_append]
  rfl

theorem isAbsolute_joined (rooted : isAbsolute directory = true)
    (path : String) : isAbsolute (joined directory path) = true := by
  have hhead : directory.toList.head? = some '/' := of_decide_eq_true rooted
  have happend : ∀ s, isAbsolute (directory ++ s) = true := by
    intro s
    rw [isAbsolute, String.toList_append, List.head?_append, hhead]
    rfl
  rw [joined]
  split_ifs with habs hslash
  · exact habs
  · exact happend path
  · rw [String.append_assoc]
    exact happend _

/-- **AN ABSOLUTE PATH** begins at the directory above all others and has no
    dots. -/
theorem absolute_tidy (rooted : isAbsolute directory = true) (path : String) :
    isAbsolute (absolute directory path) = true
      ∧ ∀ name ∈ components (absolute directory path),
        name ≠ "." ∧ name ≠ ".." := by
  obtain ⟨tidy, habs⟩ := tidy_plainWay (joined directory path)
  rw [isAbsolute_joined rooted path] at habs
  have hplain : plain (joined directory path)
      = "/" ++ "/".intercalate (plainWay (joined directory path)).names := by
    rw [plain, Directory.path, if_pos habs]
  have hnames : components (plain (joined directory path))
      = (plainWay (joined directory path)).names := by
    rw [hplain, components_slash, components_intercalate tidy.isComponent]
  have hnonempty : ¬ (plain (joined directory path)).isEmpty = true := by
    rw [hplain, String.isEmpty_iff, ← String.toList_inj, String.toList_append]
    exact List.cons_ne_nil _ _
  rw [absolute, normal, if_neg hnonempty]
  split_ifs with htwice
  · rw [components_slash, hnames]
    exact ⟨isAbsolute_slash _, tidy.no_dots habs⟩
  · rw [hnames, hplain]
    exact ⟨isAbsolute_slash _, tidy.no_dots habs⟩

/-- Two slashes in front stay. -/
example : absolute "/home/spline" "//srv/./old/../conf.yaml"
    = "//srv/conf.yaml" := by decide +kernel

end Path

end PiecewiseCubic
