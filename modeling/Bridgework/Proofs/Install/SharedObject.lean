import Bridgework.Install.Tree
import Bridgework.Proofs.Collection.Sorting
import Bridgework.Proofs.Path.Names
import Bridgework.Proofs.Text.Part

/-!
# The shared objects of a tree

The shared objects of an installed package are looked for in all directories that hold more than metadata.
What is listed are files whose names end in `.so` or have `.so.` somewhere in them. The names of libraries
are fewer: behind `.so` there are only numbers. So every library is listed, and something else is listed
exactly if a name goes on after `.so.` in another way.

- `Install.IsLibraryName` : the names of libraries, with or without version numbers
- `Install.Tree.Leads`, `Install.Tree.WellFormed` : ways into a tree, and trees that can be on a disk
- `Install.Tree.routes` : the ways that are followed
- `Install.Tree.sharedObjects_iff` : what is listed, and when these are the libraries
-/

namespace Bridgework
namespace Install

/-! ## Names of libraries -/

/-- One or more digits. -/
def IsNumber (s : String) : Prop := s ≠ "" ∧ ∀ c ∈ s.toList, '0' ≤ c ∧ c ≤ '9'

instance decidableIsNumber (s : String) : Decidable (IsNumber s) :=
  decidable_of_iff (s ≠ "" ∧ (s.toList.all fun c => '0' ≤ c ∧ c ≤ '9') = true) (by simp [IsNumber])

/-- A name in `.so`, or such a name with numbers behind it, each after a dot. -/
def IsLibraryName (file : String) : Prop :=
  ∃ stem versions, file = ".".intercalate ((stem ++ ".so") :: versions) ∧ ∀ v ∈ versions, IsNumber v

/-- A shared object has `.so` at its end, or with a dot behind it somewhere. -/
theorem isSharedObject_iff {file : String} :
    isSharedObject file = true ↔
      (∃ front, file = front ++ ".so") ∨ ∃ front back, file = front ++ ".so." ++ back := by
  rw [isSharedObject, Bool.or_eq_true, Text.endsIn_iff, Text.hasPart_toList_iff]

namespace IsLibraryName

variable {file : String}

theorem of_endsIn (h : ∃ front, file = front ++ ".so") : IsLibraryName file := by
  obtain ⟨front, rfl⟩ := h
  exact ⟨front, [], by simp [String.intercalate_singleton], by simp⟩

/-- A library name is that of a shared object. -/
theorem isSharedObject (h : IsLibraryName file) : isSharedObject file = true := by
  obtain ⟨stem, versions, rfl, _⟩ := h
  rw [isSharedObject_iff]
  cases versions with
  | nil => exact .inl ⟨stem, String.intercalate_singleton⟩
  | cons v versions =>
    refine .inr ⟨stem, ".".intercalate (v :: versions), ?_⟩
    have hdot : ".so" ++ "." = ".so." := rfl
    rw [String.intercalate_cons_of_ne_nil (List.cons_ne_nil v versions), ← hdot, ← String.append_assoc]

/-- The last character of a library name is the `o` of `.so` or a digit. -/
theorem endsIn_or_digit (h : IsLibraryName file) :
    (∃ front, file = front ++ ".so") ∨ ∃ c, file.toList.getLast? = some c ∧ '0' ≤ c ∧ c ≤ '9' := by
  obtain ⟨stem, versions, rfl, hversions⟩ := h
  rcases List.eq_nil_or_concat versions with rfl | ⟨front, v, rfl⟩
  · exact .inl ⟨stem, String.intercalate_singleton⟩
  · have hv : IsNumber v := hversions v (by simp)
    have hne : v.toList ≠ [] := fun hnil => hv.1 (String.toList_eq_nil_iff.1 hnil)
    have hjoin : ".".intercalate ((stem ++ ".so") :: front ++ [v]) =
        ".".intercalate ((stem ++ ".so") :: front) ++ "." ++ ".".intercalate [v] :=
      String.intercalate_append_of_ne_nil (List.cons_ne_nil _ _) (List.cons_ne_nil _ _)
    refine .inr ⟨v.toList.getLast hne, ?_, hv.2 _ (List.getLast_mem hne)⟩
    rw [List.concat_eq_append, ← List.cons_append, hjoin, String.intercalate_singleton, String.toList_append,
      List.getLast?_append, List.getLast?_eq_some_getLast hne, Option.some_or]

end IsLibraryName

/-! ## Ways into a tree -/

/-- The name of a directory that holds metadata only. -/
def IsMetadataName (d : String) : Prop :=
  (∃ front, d = front ++ ".dist-info") ∨ (∃ front, d = front ++ ".egg-info") ∨
    ∃ front, d = front ++ "__pycache__"

theorem isMetadata_iff {d : String} : isMetadata d = true ↔ IsMetadataName d := by
  rw [isMetadata, Bool.or_eq_true, Bool.or_eq_true, Text.endsIn_iff, Text.endsIn_iff, Text.endsIn_iff, or_assoc]
  rfl

namespace Tree

/-- The names lead through directories to the entry. -/
inductive Leads : Tree → List String → Entry → Prop where
  | entry {t : Tree} {name : String} {e : Entry} (h : (name, e) ∈ t) : Leads t [name] e
  | inside {t entries : Tree} {name : String} {names : List String} {e : Entry}
      (h : (name, .directory entries) ∈ t) (hrest : Leads entries names e) : Leads t (name :: names) e

/-- The name is a name, and no other entry has it. -/
def IsFresh (name : String) (rest : Tree) : Prop := Path.IsEntryName name ∧ ¬ name ∈ rest.map Prod.fst

/-- Each directory has entries with names, and no name twice. -/
def WellFormed : Tree → Prop
  | [] => True
  | (name, .file) :: rest => IsFresh name rest ∧ WellFormed rest
  | (name, .link) :: rest => IsFresh name rest ∧ WellFormed rest
  | (name, .directory entries) :: rest => IsFresh name rest ∧ WellFormed entries ∧ WellFormed rest

/-- The names of the directories on the way to a file and of the file, for all files that are found. -/
def routes : Tree → List (List String × String)
  | [] => []
  | (name, .file) :: rest => ([], name) :: routes rest
  | (_, .link) :: rest => routes rest
  | (name, .directory entries) :: rest =>
    (if isMetadata name then [] else (routes entries).map fun r => (name :: r.1, r.2)) ++ routes rest

/-- The directories lead to the file, and none of them holds metadata only. -/
def Offers (t : Tree) (dirs : List String) (file : String) : Prop :=
  t.Leads (dirs ++ [file]) .file ∧ ∀ d ∈ dirs, ¬ IsMetadataName d

variable {t rest entries : Tree} {name file : String} {dirs : List String}

/-! ## What is found -/

theorem Leads.ne_nil {names : List String} {e : Entry} (h : Leads t names e) : names ≠ [] := by
  cases h with
  | entry _ => exact List.cons_ne_nil _ _
  | inside _ _ => exact List.cons_ne_nil _ _

/-- A way into a tree ends at the first entry, goes on inside it, or leads into the rest. -/
theorem leads_cons_iff {x e : Entry} {names : List String} :
    Leads ((name, x) :: rest) names e ↔
      (names = [name] ∧ e = x) ∨
        (∃ entries more, x = .directory entries ∧ names = name :: more ∧ Leads entries more e) ∨
          Leads rest names e := by
  constructor
  -- The first name leads to the first entry or to one behind it.
  · intro h
    cases h with
    | entry h =>
      rcases List.mem_cons.1 h with heq | h
      · obtain ⟨rfl, rfl⟩ := Prod.mk.inj heq
        exact .inl ⟨rfl, rfl⟩
      · exact .inr (.inr (.entry h))
    | inside h hmore =>
      rcases List.mem_cons.1 h with heq | h
      · obtain ⟨rfl, rfl⟩ := Prod.mk.inj heq
        exact .inr (.inl ⟨_, _, rfl, rfl, hmore⟩)
      · exact .inr (.inr (.inside h hmore))
  · rintro (⟨rfl, rfl⟩ | ⟨entries, more, rfl, rfl, hmore⟩ | h)
    · exact .entry List.mem_cons_self
    · exact .inside List.mem_cons_self hmore
    · cases h with
      | entry h => exact .entry (List.mem_cons_of_mem _ h)
      | inside h hmore => exact .inside (List.mem_cons_of_mem _ h) hmore

theorem not_offers_nil : ¬ Offers [] dirs file := by
  rintro ⟨h, _⟩
  cases hnames : dirs ++ [file] with
  | nil => exact absurd hnames (by simp)
  | cons n names =>
    rw [hnames] at h
    cases h with
    | entry h => cases h
    | inside h _ => cases h

/-- A file is offered at once, and what comes after it is offered as before. -/
theorem offers_file_iff :
    Offers ((name, .file) :: rest) dirs file ↔ (dirs = [] ∧ file = name) ∨ Offers rest dirs file := by
  rw [Offers, Offers, leads_cons_iff]
  constructor
  · rintro ⟨⟨hnames, _⟩ | ⟨_, _, hfile, _⟩ | h, hdirs⟩
    · cases dirs with
      | nil => exact .inl ⟨rfl, (List.cons.inj hnames).1⟩
      | cons d ds => simp at hnames
    · cases hfile
    · exact .inr ⟨h, hdirs⟩
  · rintro (⟨rfl, rfl⟩ | ⟨h, hdirs⟩)
    · exact ⟨.inl ⟨rfl, rfl⟩, by simp⟩
    · exact ⟨.inr (.inr h), hdirs⟩

/-- Links offer nothing. -/
theorem offers_link_iff : Offers ((name, .link) :: rest) dirs file ↔ Offers rest dirs file := by
  rw [Offers, Offers, leads_cons_iff]
  constructor
  · rintro ⟨⟨_, hlink⟩ | ⟨_, _, hlink, _⟩ | h, hdirs⟩
    · cases hlink
    · cases hlink
    · exact ⟨h, hdirs⟩
  · rintro ⟨h, hdirs⟩
    exact ⟨.inr (.inr h), hdirs⟩

/-- A directory offers what it holds, unless it holds metadata. -/
theorem offers_directory_iff :
    Offers ((name, .directory entries) :: rest) dirs file ↔
      (¬ IsMetadataName name ∧ ∃ more, dirs = name :: more ∧ Offers entries more file) ∨
        Offers rest dirs file := by
  rw [Offers, Offers, leads_cons_iff]
  constructor
  · rintro ⟨⟨_, hdir⟩ | ⟨_, more, hdir, hnames, hmore⟩ | h, hdirs⟩
    · cases hdir
    · obtain rfl := Entry.directory.inj hdir
      -- The way goes on inside the directory, so the directory is not its last name.
      cases dirs with
      | nil =>
        obtain rfl : more = [] := (List.cons.inj hnames).2.symm
        exact absurd rfl hmore.ne_nil
      | cons d ds =>
        obtain ⟨rfl, rfl⟩ := List.cons.inj hnames
        refine .inl ⟨hdirs d List.mem_cons_self, ds, rfl, hmore, fun x hx => ?_⟩
        exact hdirs x (List.mem_cons_of_mem d hx)
    · exact .inr ⟨h, hdirs⟩
  · rintro (⟨hname, more, rfl, hmore, hdirs⟩ | ⟨h, hdirs⟩)
    · refine ⟨.inr (.inl ⟨entries, more ++ [file], rfl, rfl, hmore⟩), fun d hd => ?_⟩
      rcases List.mem_cons.1 hd with rfl | hd
      · exact hname
      · exact hdirs d hd
    · exact ⟨.inr (.inr h), hdirs⟩

/-- The routes lead to the files that are offered. -/
theorem mem_routes_iff : (dirs, file) ∈ t.routes ↔ t.Offers dirs file := by
  fun_induction routes t generalizing dirs with
  | case1 => exact iff_of_false List.not_mem_nil not_offers_nil
  | case2 name rest ih => rw [List.mem_cons, ih, offers_file_iff, Prod.mk.injEq]
  | case3 name rest ih => rw [ih, offers_link_iff]
  | case4 name entries rest ih ih' =>
    -- Both sides tell what is inside the directory from what is in the rest.
    rw [List.mem_append, ih', offers_directory_iff]
    refine or_congr_left ?_
    by_cases hmeta : isMetadata name = true
    · simp [hmeta, isMetadata_iff.1 hmeta]
    · have hname : ¬ IsMetadataName name := mt isMetadata_iff.2 hmeta
      rw [if_neg hmeta, List.mem_map, and_iff_right hname]
      constructor
      · rintro ⟨⟨more, _⟩, hmore, heq⟩
        obtain ⟨rfl, rfl⟩ := Prod.mk.inj heq
        exact ⟨more, rfl, ih.1 hmore⟩
      · rintro ⟨more, rfl, hmore⟩
        exact ⟨(more, file), ih.2 hmore, rfl⟩

/-- The path that the directories and the file make. -/
def pathOf (r : List String × String) : String := "/".intercalate (r.1 ++ [r.2])

/-- Paths are put together along routes. -/
theorem pathsIn_eq (start : String) (t : Tree) :
    pathsIn start t = t.routes.map fun r => start ++ pathOf r := by
  fun_induction pathsIn start t with
  | case1 start => simp [routes]
  | case2 start name rest ih => simp [routes, ih, pathOf]
  | case3 start name rest ih => simpa [routes] using ih
  | case4 start name entries rest ih ih' =>
    rw [routes, List.map_append, ih, ih']
    split
    · rfl
    · rw [List.map_map]
      refine congrArg (· ++ _) (List.map_congr_left fun r _ => ?_)
      have hcons : pathOf (name :: r.1, r.2) = name ++ "/" ++ pathOf r :=
        String.intercalate_cons_of_ne_nil (by simp)
      simp only [Function.comp_apply, hcons, String.append_assoc]

/-! ## Trees on a disk -/

/-- The name with which the way begins. -/
def firstName : List String × String → String
  | ([], file) => file
  | (d :: _, _) => d

theorem firstName_mem {r : List String × String} (h : r ∈ t.routes) : firstName r ∈ t.map Prod.fst := by
  fun_induction routes t with
  | case1 => cases h
  | case2 name rest ih =>
    rcases List.mem_cons.1 h with rfl | h
    · exact List.mem_cons_self
    · exact List.mem_cons_of_mem _ (ih h)
  | case3 name rest ih => exact List.mem_cons_of_mem _ (ih h)
  | case4 name entries rest _ ih =>
    rcases List.mem_append.1 h with h | h
    · split at h
      · cases h
      · obtain ⟨_, _, rfl⟩ := List.mem_map.1 h
        exact List.mem_cons_self
    · exact List.mem_cons_of_mem _ (ih h)

/-- All names along a route are those of entries. -/
theorem WellFormed.isEntryName (ht : t.WellFormed) {r : List String × String} (h : r ∈ t.routes) :
    ∀ n ∈ r.1 ++ [r.2], Path.IsEntryName n := by
  -- Along the recursion of the routes: a file, something else, or a directory.
  fun_induction routes t generalizing r with
  | case1 => cases h
  | case2 name rest ih =>
    rw [WellFormed] at ht
    rcases List.mem_cons.1 h with rfl | h
    · intro n hn
      exact List.mem_singleton.1 hn ▸ ht.1.1
    · exact ih ht.2 h
  | case3 name rest ih =>
    rw [WellFormed] at ht
    exact ih ht.2 h
  | case4 name entries rest ih ih' =>
    rw [WellFormed] at ht
    rcases List.mem_append.1 h with h | h
    · split at h
      · cases h
      -- Inside a directory each route has its name in front.
      · obtain ⟨r, hr, rfl⟩ := List.mem_map.1 h
        intro n hn
        rcases List.mem_cons.1 hn with rfl | hn
        · exact ht.1.1
        · exact ih ht.2.1 hr n hn
    · exact ih' ht.2.2 h

/-- No way is found twice, since no two ways begin with the same name. -/
theorem WellFormed.nodup_routes (ht : t.WellFormed) : t.routes.Nodup := by
  fun_induction routes t with
  | case1 => exact List.nodup_nil
  | case2 name rest ih =>
    rw [WellFormed] at ht
    exact List.nodup_cons.2 ⟨fun h => ht.1.2 (firstName_mem h), ih ht.2⟩
  | case3 name rest ih =>
    rw [WellFormed] at ht
    exact ih ht.2
  | case4 name entries rest ih ih' =>
    rw [WellFormed] at ht
    refine List.nodup_append.2 ⟨?_, ih' ht.2.2, ?_⟩
    · split
      · exact List.nodup_nil
      · refine List.Pairwise.map _ (fun r r' hne heq => hne ?_) (ih ht.2.1)
        obtain ⟨hdirs, hfile⟩ := Prod.mk.inj heq
        exact Prod.ext (List.cons.inj hdirs).2 hfile
    · -- A way inside begins with the name of the directory, and no way in the rest does.
      rintro r hr _ hr' rfl
      split at hr
      · cases hr
      · obtain ⟨_, _, rfl⟩ := List.mem_map.1 hr
        exact ht.1.2 (firstName_mem hr')

/-- The names need no change, so the paths are stored as they are. -/
theorem WellFormed.files_eq (ht : t.WellFormed) : t.files = t.routes.map pathOf := by
  rw [files, pathsIn_eq, List.map_map]
  refine List.map_congr_left fun r hr => ?_
  rw [Function.comp_apply, String.empty_append]
  exact Path.normalize_intercalate (ht.isEntryName hr)

theorem WellFormed.no_slash (ht : t.WellFormed) (h : t.Offers dirs file) :
    ∀ n ∈ dirs ++ [file], ¬ '/' ∈ n.toList :=
  fun n hn => (ht.isEntryName (mem_routes_iff.2 h) n hn).no_slash

theorem WellFormed.offers_injective (ht : t.WellFormed) {dirs' : List String} {file' : String}
    (h : t.Offers dirs file) (h' : t.Offers dirs' file')
    (heq : "/".intercalate (dirs ++ [file]) = "/".intercalate (dirs' ++ [file'])) :
    dirs = dirs' ∧ file = file' := by
  have hnames : dirs ++ [file] = dirs' ++ [file'] :=
    Path.intercalate_injective (by simp) (by simp) (ht.no_slash h) (ht.no_slash h') heq
  obtain ⟨hdirs, hfile⟩ := List.append_inj' hnames rfl
  exact ⟨hdirs, List.singleton_inj.1 hfile⟩

theorem WellFormed.nodup_files (ht : t.WellFormed) : t.files.Nodup := by
  rw [ht.files_eq, List.Nodup, List.pairwise_map]
  refine ht.nodup_routes.imp_of_mem fun {r r'} hr hr' hne heq => hne ?_
  obtain ⟨hdirs, hfile⟩ := ht.offers_injective (mem_routes_iff.1 hr) (mem_routes_iff.1 hr') heq
  exact Prod.ext hdirs hfile

/-! ## What is listed -/

/-- The files of a tree are those that are offered, under the paths of their directories. -/
theorem WellFormed.mem_files_iff (ht : t.WellFormed) {path : String} :
    path ∈ t.files ↔ ∃ dirs file, t.Offers dirs file ∧ path = "/".intercalate (dirs ++ [file]) := by
  rw [ht.files_eq, List.mem_map]
  constructor
  · rintro ⟨⟨dirs, file⟩, hr, rfl⟩
    exact ⟨dirs, file, mem_routes_iff.1 hr, rfl⟩
  · rintro ⟨dirs, file, h, rfl⟩
    exact ⟨(dirs, file), mem_routes_iff.2 h, rfl⟩

/-- The shared objects of a tree, by the names of the files that are offered. -/
theorem WellFormed.mem_sharedObjects_iff (ht : t.WellFormed) {path : String} :
    path ∈ t.sharedObjects ↔
      ∃ dirs file, t.Offers dirs file ∧ path = "/".intercalate (dirs ++ [file]) ∧
        isSharedObject file = true := by
  rw [sharedObjects, List.mem_mergeSort, List.mem_filter, ht.mem_files_iff]
  constructor
  · rintro ⟨⟨dirs, file, h, rfl⟩, hshared⟩
    rw [Path.fileName_intercalate (ht.no_slash h)] at hshared
    exact ⟨dirs, file, h, rfl, hshared⟩
  · rintro ⟨dirs, file, h, rfl, hshared⟩
    rw [Path.fileName_intercalate (ht.no_slash h)]
    exact ⟨⟨dirs, file, h, rfl⟩, hshared⟩

/-- In a tree without repeated names no path comes twice. -/
theorem WellFormed.increasing_sharedObjects (ht : t.WellFormed) : Increasing t.sharedObjects := by
  rw [sharedObjects]
  exact increasing_mergeSort (ht.nodup_files.filter _)

/-- The paths of the files outside of metadata with a name that ends in `.so` or has `.so.` in it are listed in
order, each once. So the libraries are all listed, and nothing else is exactly if each name with `.so.` in it is
that of a library. -/
theorem sharedObjects_iff (t : Tree) (ht : t.WellFormed) :
    Increasing t.sharedObjects ∧
    (∀ path, path ∈ t.sharedObjects ↔
      ∃ dirs file, t.Offers dirs file ∧ path = "/".intercalate (dirs ++ [file]) ∧
        ((∃ front, file = front ++ ".so") ∨ ∃ front back, file = front ++ ".so." ++ back)) ∧
    (∀ dirs file, t.Offers dirs file → IsLibraryName file →
      "/".intercalate (dirs ++ [file]) ∈ t.sharedObjects) ∧
    ((∀ path, path ∈ t.sharedObjects ↔
        ∃ dirs file, t.Offers dirs file ∧ path = "/".intercalate (dirs ++ [file]) ∧ IsLibraryName file) ↔
      ∀ dirs file, t.Offers dirs file → (∃ front back, file = front ++ ".so." ++ back) →
        IsLibraryName file) := by
  have hlibrary : ∀ dirs file, t.Offers dirs file → IsLibraryName file →
      "/".intercalate (dirs ++ [file]) ∈ t.sharedObjects :=
    fun dirs file h hname => ht.mem_sharedObjects_iff.2 ⟨dirs, file, h, rfl, hname.isSharedObject⟩
  refine ⟨ht.increasing_sharedObjects, fun path => ?_, hlibrary, fun hall dirs file h hpart => ?_,
    fun hall path => ⟨fun hpath => ?_, ?_⟩⟩
  · simp only [← isSharedObject_iff]
    exact ht.mem_sharedObjects_iff
  · -- The file is listed for some library at the same path, which can only be the file itself.
    have hshared : isSharedObject file = true := isSharedObject_iff.2 (.inr hpart)
    obtain ⟨dirs', file', h', heq, hname⟩ :=
      (hall _).1 (ht.mem_sharedObjects_iff.2 ⟨dirs, file, h, rfl, hshared⟩)
    exact (ht.offers_injective h h' heq).2 ▸ hname
  · obtain ⟨dirs, file, h, rfl, hshared⟩ := ht.mem_sharedObjects_iff.1 hpath
    rcases isSharedObject_iff.1 hshared with hend | hpart
    · exact ⟨dirs, file, h, rfl, .of_endsIn hend⟩
    · exact ⟨dirs, file, h, rfl, hall dirs file h hpart⟩
  · rintro ⟨dirs, file, h, rfl, hname⟩
    exact hlibrary dirs file h hname

/-- A tree with a versioned library, and with a file in `.so` among metadata. -/
def wheel : Tree :=
  [("pkg", .directory [("libz.so.1.2", .file), ("notes.txt", .file)]),
    ("pkg-1.0.dist-info", .directory [("fake.so", .file)])]

/-- In this tree, the versioned library is all that is found and all that is listed. -/
theorem sharedObjects_iff_wheel :
    wheel.WellFormed ∧ ∀ path, path ∈ wheel.sharedObjects ↔
      ∃ dirs file, wheel.Offers dirs file ∧ path = "/".intercalate (dirs ++ [file]) ∧ IsLibraryName file := by
  have ht : wheel.WellFormed := by
    simp only [wheel, WellFormed, IsFresh]
    decide
  refine ⟨ht, (sharedObjects_iff wheel ht).2.2.2.2 fun dirs file h hpart => ?_⟩
  have hroutes : wheel.routes = [(["pkg"], "libz.so.1.2"), (["pkg"], "notes.txt")] := by
    simp only [wheel, routes]
    decide
  have hfound : (dirs, file) ∈ wheel.routes := mem_routes_iff.2 h
  rw [hroutes, List.mem_cons, List.mem_singleton, Prod.mk.injEq, Prod.mk.injEq] at hfound
  rcases hfound with ⟨_, rfl⟩ | ⟨_, rfl⟩
  · refine ⟨"libz", ["1", "2"], by decide, ?_⟩
    decide
  · exact absurd (Text.hasPart_toList_iff.2 hpart) (by decide)

/-- A tree with a text about a library beside the library. -/
def annotated : Tree := [("pkg", .directory [("libz.so.1.2", .file), ("libz.so.txt", .file)])]

/-- The text is listed with the library. -/
theorem annotated_overlisted :
    annotated.WellFormed ∧ ¬ ∀ path, path ∈ annotated.sharedObjects ↔
      ∃ dirs file, annotated.Offers dirs file ∧ path = "/".intercalate (dirs ++ [file]) ∧
        IsLibraryName file := by
  have ht : annotated.WellFormed := by
    simp only [annotated, WellFormed, IsFresh]
    decide
  have hoffers : annotated.Offers ["pkg"] "libz.so.txt" := by
    refine ⟨.inside List.mem_cons_self (.entry (List.mem_cons_of_mem _ List.mem_cons_self)), ?_⟩
    simp only [← isMetadata_iff]
    decide
  refine ⟨ht, fun hall => ?_⟩
  obtain ⟨dirs, file, h, heq, hname⟩ := (hall "pkg/libz.so.txt").1
    (ht.mem_sharedObjects_iff.2 ⟨["pkg"], "libz.so.txt", hoffers, by decide, by decide⟩)
  obtain ⟨_, rfl⟩ := ht.offers_injective hoffers h heq
  -- The name ends in a `t`.
  rcases hname.endsIn_or_digit with hend | ⟨c, hlast, hdigit⟩
  · exact absurd (Text.endsIn_iff.2 hend) (by decide)
  · obtain rfl : 't' = c := Option.some.inj hlast
    exact absurd hdigit (by decide)

end Tree
end Install
end Bridgework
