import RealmFormal.Go.Bytes

/-!
# File paths

`path/filepath` on Unix. `Clean` is given by what it does to the elements of a
path: empty elements and `.` go away, `..` takes the element before it away, and
`..` at the root goes away too.
-/

namespace Go.Filepath
set_option autoImplicit false

def isAbs (path : Bytes) : Bool := hasPrefix path (str "/")

/-- One more element after the elements kept so far, the last of which comes first. -/
def cleanElement (rooted : Bool) (kept : List Bytes) (element : Bytes) : List Bytes :=
  if element = [] ∨ element = str "." then kept
  else if element = str ".." then
    match kept with
    | [] => if rooted then [] else [element]
    | last :: rest => if last = str ".." then element :: kept else rest
  else element :: kept

def cleanElements (rooted : Bool) (path : Bytes) : List Bytes :=
  ((split path (chr '/')).foldl (cleanElement rooted) []).reverse

def clean (path : Bytes) : Bytes :=
  if isAbs path then chr '/' :: join (cleanElements true path) (chr '/')
  else if cleanElements false path = [] then str "."
  else join (cleanElements false path) (chr '/')

/-- The path up to its last slash, cleaned. -/
def dir (path : Bytes) : Bytes :=
  clean (path.take (path.length - (path.reverse.takeWhile fun b => decide (b ≠ chr '/')).length))

/-- The last element of a path. -/
def base (path : Bytes) : Bytes :=
  if path = [] then str "."
  else
    let last := ((path.reverse.dropWhile fun b => decide (b = chr '/')).takeWhile fun b =>
      decide (b ≠ chr '/')).reverse
    if last = [] then str "/" else last

example : clean (str "/a/./b//../c/") = str "/a/c" := by decide
example : clean (str "../a/../../b") = str "../../b" := by decide
example : dir (str "/run/realm/control.sock") = str "/run/realm" := by decide

/-! ## Clean absolute paths -/

/-- A name that may stand between two slashes of a clean path. -/
def Proper (name : Bytes) : Prop :=
  name ≠ [] ∧ name ≠ str "." ∧ name ≠ str ".." ∧ chr '/' ∉ name

/-- The absolute path with these names. -/
def rooted (names : List Bytes) : Bytes := chr '/' :: join names (chr '/')

theorem cleanElement_proper {kept : List Bytes} {element : Bytes}
    (hkept : ∀ name ∈ kept, Proper name) (helement : chr '/' ∉ element) :
    ∀ name ∈ cleanElement true kept element, Proper name := by
  unfold cleanElement
  split
  · exact hkept
  · rename_i hne
    rw [not_or] at hne
    split
    · cases kept with
      | nil => simp
      | cons last rest =>
        have hlast : last ≠ str ".." := (hkept last List.mem_cons_self).2.2.1
        dsimp only
        rw [if_neg hlast]
        exact fun name hname => hkept name (List.mem_cons_of_mem _ hname)
    · rename_i hdots
      intro name hname
      rcases List.mem_cons.mp hname with rfl | hname
      · exact ⟨hne.1, hne.2, hdots, helement⟩
      · exact hkept name hname

theorem foldl_cleanElement_proper {elements kept : List Bytes}
    (hkept : ∀ name ∈ kept, Proper name) (helements : ∀ e ∈ elements, chr '/' ∉ e) :
    ∀ name ∈ elements.foldl (cleanElement true) kept, Proper name := by
  induction elements generalizing kept with
  | nil => exact hkept
  | cons element elements ih =>
    exact ih (cleanElement_proper hkept (helements element List.mem_cons_self))
      fun e he => helements e (List.mem_cons_of_mem _ he)

theorem cleanElements_proper (path : Bytes) : ∀ name ∈ cleanElements true path, Proper name := by
  intro name hname
  rw [cleanElements, List.mem_reverse] at hname
  exact foldl_cleanElement_proper (List.forall_mem_nil _) (fun _ => not_mem_of_mem_split) name hname

/-- Names are kept in their order. -/
theorem foldl_cleanElement_names {names kept : List Bytes} (h : ∀ name ∈ names, Proper name) :
    names.foldl (cleanElement true) kept = names.reverse ++ kept := by
  induction names generalizing kept with
  | nil => rfl
  | cons name names ih =>
    obtain ⟨hnil, hdot, hdots, -⟩ := h name List.mem_cons_self
    have hstep : cleanElement true kept name = name :: kept := by
      simp [cleanElement, hnil, hdot, hdots]
    rw [List.foldl_cons, hstep, ih fun n hn => h n (List.mem_cons_of_mem _ hn)]
    simp

theorem split_rooted {names : List Bytes} (hne : names ≠ []) (h : ∀ name ∈ names, Proper name) :
    split (rooted names) (chr '/') = [] :: names := by
  have hsplit := split_join hne fun name hname => (h name hname).2.2.2
  unfold split List.splitOn at hsplit ⊢
  rw [rooted, List.splitOnP_cons_eq_if_modifyHead, hsplit]
  rfl

theorem cleanElements_rooted {names : List Bytes} (h : ∀ name ∈ names, Proper name) :
    cleanElements true (rooted names) = names := by
  by_cases hne : names = []
  · subst hne
    decide
  · rw [cleanElements, split_rooted hne h, List.foldl_cons, foldl_cleanElement_names h]
    simp [cleanElement]

theorem isAbs_rooted (names : List Bytes) : isAbs (rooted names) = true :=
  hasPrefix_append (str "/") (join names (chr '/'))

theorem clean_rooted {names : List Bytes} (h : ∀ name ∈ names, Proper name) :
    clean (rooted names) = rooted names := by
  rw [clean, if_pos (isAbs_rooted names), cleanElements_rooted h]
  rfl

/-- An absolute path becomes the path of its names. -/
theorem clean_of_isAbs {path : Bytes} (h : isAbs path = true) :
    clean path = rooted (cleanElements true path) := by
  rw [clean, if_pos h]
  rfl

theorem dir_of_isAbs {path : Bytes} (h : isAbs path = true) :
    ∃ names, (∀ name ∈ names, Proper name) ∧ dir path = rooted names := by
  obtain ⟨rest, rfl⟩ := List.isPrefixOf_iff_prefix.mp h
  refine ⟨_, cleanElements_proper _, clean_of_isAbs ?_⟩
  -- the last slash is the first one or comes later
  have hlast : (((str "/" ++ rest).reverse.takeWhile fun b => decide (b ≠ chr '/'))).length ≤
      rest.length := by
    rw [List.reverse_append, List.takeWhile_append]
    split
    · rw [show (str "/").reverse.takeWhile (fun b => decide (b ≠ chr '/')) = [] by decide]
      simp
    · simpa using (List.takeWhile_prefix (l := rest.reverse) fun b => decide (b ≠ chr '/')).length_le
  generalize (((str "/" ++ rest).reverse.takeWhile fun b => decide (b ≠ chr '/'))).length = k at hlast
  have hkept : (str "/" ++ rest).length - k = (rest.length - k) + 1 := by
    simp only [List.length_append, show (str "/").length = 1 by decide]
    omega
  rw [hkept]
  exact hasPrefix_append (str "/") (rest.take (rest.length - k))

/-- The path `path` is `tree` or lies below it, element by element. -/
def Within (tree path : Bytes) : Prop := cleanElements true tree <+: cleanElements true path

instance (tree path : Bytes) : Decidable (Within tree path) :=
  inferInstanceAs (Decidable (_ <+: _))

theorem within_rooted {names names' : List Bytes} (h : ∀ name ∈ names, Proper name)
    (h' : ∀ name ∈ names', Proper name) :
    Within (rooted names) (rooted names') ↔ names <+: names' := by
  rw [Within, cleanElements_rooted h, cleanElements_rooted h']

/-- What lies below a directory continues its text, so it comes later in byte order. -/
theorem rooted_append (names rest : List Bytes) (hnames : names ≠ []) (hrest : rest ≠ []) :
    rooted (names ++ rest) = rooted names ++ chr '/' :: join rest (chr '/') := by
  rw [rooted, rooted, join_append hnames hrest]
  rfl

theorem rooted_prefix {names names' : List Bytes} (h : names <+: names') :
    rooted names <+: rooted names' := by
  obtain ⟨rest, rfl⟩ := h
  by_cases hnames : names = []
  · subst hnames
    exact List.prefix_append (str "/") _
  by_cases hrest : rest = []
  · simp [hrest]
  · rw [rooted_append names rest hnames hrest]
    exact List.prefix_append _ _

end Go.Filepath
