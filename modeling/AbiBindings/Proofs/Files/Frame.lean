import AbiBindings.Proofs.Files.Tree

/-!
# What making directories and writing files leaves alone

Making a directory adds directories to a tree, and all of them are on the way to it
(`makes_makeDirectory`): each time one is made, the names that lead to it are the first ones of the
route. Nothing that is there goes away, so paths go on leading where they led (`walk_mono`).

Files are then written in that directory. The frame of all this is kept step by step
(`Frame.of_makes`, `Frame.write`): a place has what it had, or it is a new directory on the way, or
it is that of one of the files. So a path to some other place leads there still, and to what was
there (`Frame.resolve`).
-/

namespace AbiBindings.Files.Tree

/-! ### Making directories -/

/-- Where a route starts. -/
def origin (tree : Tree) (route : Route) : Location := if route.fromRoot then [] else tree.current

/-- The first names of the route lead to the place. -/
def OnWay (tree : Tree) (route : Route) (location : Location) : Prop :=
  ∃ names, names <+: route.names ∧ tree.walk (tree.origin route) names = .ok location

/-- The second tree is the first one with directories on the way along the route. -/
structure Makes (tree after : Tree) (route : Route) : Prop where
  current : after.current = tree.current
  find : ∀ location, after.find? location = tree.find? location ∨
    tree.find? location = none ∧ after.find? location = some .directory ∧ after.OnWay route location

namespace Makes

variable {tree between after : Tree} {route : Route}

theorem refl (tree : Tree) (route : Route) : tree.Makes tree route := ⟨rfl, fun _ ↦ .inl rfl⟩

/-- What is there stays. -/
theorem stays (h : tree.Makes after route) {location : Location} {content : Content}
    (hfind : tree.find? location = some content) : after.find? location = some content := by
  obtain heq | ⟨hnone, -⟩ := h.find location
  · rw [heq, hfind]
  · rw [hnone] at hfind
    cases hfind

theorem onWay (h : tree.Makes after route) {other : Route} {location : Location}
    (hway : tree.OnWay other location) : after.OnWay other location := by
  obtain ⟨names, hnames, hwalk⟩ := hway
  refine ⟨names, hnames, ?_⟩
  rw [origin, h.current]
  exact walk_mono (fun _ ↦ h.stays) hwalk

theorem trans (h : tree.Makes between route) (hafter : between.Makes after route) :
    tree.Makes after route := by
  refine ⟨hafter.current.trans h.current, fun location ↦ ?_⟩
  obtain heq | ⟨hnone, hdirectory, hway⟩ := h.find location
  · rw [← heq]
    exact hafter.find location
  · exact .inr ⟨hnone, hafter.stays hdirectory, hafter.onWay hway⟩

/-- A route that starts with another one goes along it. -/
theorem mono {front : Route} (h : tree.Makes after front) (hroot : front.fromRoot = route.fromRoot)
    (hnames : front.names <+: route.names) : tree.Makes after route := by
  refine ⟨h.current, fun location ↦ (h.find location).imp_right ?_⟩
  rintro ⟨hnone, hdirectory, names, hfront, hwalk⟩
  refine ⟨hnone, hdirectory, names, hfront.trans hnames, ?_⟩
  rwa [origin, ← hroot]

end Makes

namespace Route

/-- Trimming drops names from the end. -/
theorem trimmed_starts (fromRoot : Bool) (count : Nat) (names : List String) :
    trimmed fromRoot count names <+: names := by
  induction count generalizing names with
  | zero => exact List.prefix_rfl
  | succ count ih =>
    rw [trimmed]
    split
    · exact (ih names.dropLast).trans names.dropLast_prefix
    · exact List.prefix_rfl

theorem parent_starts (route : Route) : route.parent.names <+: route.names :=
  (trimmed_starts _ _ _).trans ((List.dropLast_prefix _).trans (trimmed_starts _ _ _))

/-- A route has no empty names. -/
theorem empty_not_mem_ofPath (path : String) : "" ∉ (ofPath path).names := by
  intro hmem
  simpa using (List.mem_filter.1 hmem).2

end Route

/-- A directory is made in another one, where nothing is yet. -/
theorem exists_of_makeOne {tree after : Tree} {route : Route} (h : tree.makeOne route = .ok after) :
    ∃ names name place, route.names = names ++ [name] ∧ name ≠ "." ∧ name ≠ ".." ∧
      tree.walk (tree.origin route) names = .ok place ∧ tree.find? place = some .directory ∧
      tree.find? (place ++ [name]) = none ∧ after = tree.insert (place ++ [name]) .directory := by
  unfold makeOne at h
  dsimp only at h
  split at h
  · cases h
  · rename_i name hlast
    obtain ⟨names, hnames⟩ := List.getLast?_eq_some_iff.1 hlast
    rw [hnames, List.dropLast_concat] at h
    obtain ⟨place, hwalk, h⟩ := bind_eq_ok_iff.1 h
    obtain ⟨⟨⟩, hplace, h⟩ := bind_eq_ok_iff.1 h
    split at h
    · cases h
    · rename_i hproper
      split at h
      · cases h
      · rename_i hnone
        obtain ⟨hdot, hdots⟩ := not_or.1 hproper
        exact ⟨names, name, place, hnames, hdot, hdots, hwalk, enter_eq_ok_iff.1 hplace, hnone,
          (Except.ok.inj h).symm⟩

/-- A directory that is made is at the end of its route. -/
theorem makes_makeOne {tree after : Tree} {route : Route} (hnames : "" ∉ route.names)
    (h : tree.makeOne route = .ok after) : tree.Makes after route := by
  obtain ⟨names, name, place, hroute, hdot, hdots, hwalk, hplace, hnone, rfl⟩ := exists_of_makeOne h
  have hstep : step place name = place ++ [name] := by
    have hempty : name ≠ "" := by
      rintro rfl
      exact hnames (by simp [hroute])
    rw [step, if_neg (not_or.2 ⟨hempty, hdot⟩), if_neg hdots]
  have hnew : place ++ [name] ≠ [] := List.append_ne_nil_of_right_ne_nil _ (List.cons_ne_nil _ _)
  have hstays {location : Location} {content : Content}
      (hfind : tree.find? location = some content) :
      (tree.insert (place ++ [name]) .directory).find? location = some content := by
    rw [find?_insert_of_ne, hfind]
    rintro rfl
    rw [hnone] at hfind
    cases hfind
  refine ⟨rfl, fun location ↦ ?_⟩
  by_cases hlocation : location = place ++ [name]
  · subst hlocation
    refine .inr ⟨hnone, find?_insert_self hnew, names ++ [name], hroute ▸ List.prefix_rfl, ?_⟩
    exact walk_snoc_eq_ok_iff.2 ⟨place, walk_mono (fun _ ↦ hstays) hwalk, hstays hplace, hstep⟩
  · exact .inl (find?_insert_of_ne hlocation)

theorem unlessThere_fst (tree : Tree) (route : Route) (fault : Fault) :
    (tree.unlessThere route fault).1 = tree := by
  rw [unlessThere]
  split <;> rfl

/-- However many directories are made, all are on the way. -/
theorem makes_makeAll (count : Nat) (tree : Tree) {route : Route} (hnames : "" ∉ route.names) :
    tree.Makes (makeAll count tree route).1 route := by
  induction count generalizing tree route with
  | zero => exact .refl tree route
  | succ count ih =>
    rw [makeAll]
    split
    · exact .refl tree route
    · split
      · rename_i hone
        exact makes_makeOne hnames hone
      · -- the directory that it is in is made first, and then it is tried again
        have hparent : tree.Makes (makeAll count tree route.parent).1 route :=
          (ih tree fun hempty ↦ hnames (route.parent_starts.subset hempty)).mono rfl
            route.parent_starts
        split
        · rename_i hmade
          rw [hmade] at hparent
          exact hparent
        · rename_i hmade
          rw [hmade] at hparent
          split
          · rename_i hone
            exact hparent.trans (makes_makeOne hnames hone)
          · rw [unlessThere_fst]
            exact hparent
      · rw [unlessThere_fst]
        exact .refl tree route

/-- Nothing is changed but the directories on the way to the one that is made. -/
theorem makes_makeDirectory (tree : Tree) (path : String) :
    tree.Makes (tree.makeDirectory path).1 (Route.ofPath path) :=
  makes_makeAll _ tree (Route.empty_not_mem_ofPath path)

/-! ### Writing files -/

/-- What making a directory and writing texts at paths comes to: a place has what it had, or it is a
new directory on the way to that one, or no directory was there and one of the paths leads to it,
where its text is now. -/
structure Frame (tree after : Tree) (directory : String) (texts : List (String × String)) :
    Prop where
  current : after.current = tree.current
  find : ∀ location, after.find? location = tree.find? location ∨
    (tree.find? location = none ∧ after.find? location = some .directory ∧
      after.OnWay (Route.ofPath directory) location) ∨
    tree.find? location ≠ some .directory ∧
      ∃ path text, (path, text) ∈ texts ∧
      after.resolve path = .ok (location, .file (Text.Utf8.encode text))

namespace Frame

variable {tree between after : Tree} {directory : String} {texts : List (String × String)}

/-- Making a directory writes no texts. -/
theorem of_makes (h : tree.Makes after (Route.ofPath directory)) : tree.Frame after directory [] :=
  ⟨h.current, fun location ↦ (h.find location).imp_right .inl⟩

theorem mono (h : tree.Frame after directory texts) {more : List (String × String)}
    (hsub : texts ⊆ more) : tree.Frame after directory more := by
  refine ⟨h.current, fun location ↦ (h.find location).imp_right (.imp_right ?_)⟩
  rintro ⟨hfree, path, text, hmem, hresolve⟩
  exact ⟨hfree, path, text, hsub hmem, hresolve⟩

theorem refl (tree : Tree) (directory : String) (texts : List (String × String)) :
    tree.Frame tree directory texts :=
  ⟨rfl, fun _ ↦ .inl rfl⟩

/-- A directory stays one. -/
theorem directory_stays (h : tree.Frame after directory texts) {location : Location}
    (hfind : tree.find? location = some .directory) : after.find? location = some .directory := by
  obtain heq | ⟨-, hdirectory, -⟩ | ⟨hfree, -⟩ := h.find location
  · rw [heq, hfind]
  · exact hdirectory
  · exact absurd hfind hfree

/-- One more text is written, or cannot be. -/
theorem write (h : tree.Frame between directory texts) {path text : String}
    {result : Except Fault Unit} (hwrite : between.writeText path text = (after, result)) :
    tree.Frame after directory (texts ++ [(path, text)]) := by
  have hframe := h.mono (List.subset_append_left texts [(path, text)])
  unfold writeText at hwrite
  split at hwrite
  · rename_i written hbytes
    cases hwrite
    obtain ⟨hpath, place, hwalk, hfree, rfl⟩ := writeBytes_eq_ok_iff.1 hbytes
    refine ⟨h.current, fun location ↦ ?_⟩
    by_cases hlocation : location = place
    · subst hlocation
      have hbefore : tree.find? location ≠ some .directory :=
        fun hfind ↦ hfree (h.directory_stays hfind)
      exact .inr (.inr ⟨hbefore, path, text, by simp, resolve_insert_self hfree hpath hwalk⟩)
    · rw [find?_insert_of_ne hlocation]
      obtain heq | ⟨hnone, hfind, names, hnames, hway⟩ | ⟨hbefore, other, more, hmem, hresolve⟩ :=
        hframe.find location
      · exact .inl heq
      · exact .inr (.inl ⟨hnone, hfind, names, hnames, walk_insert hfree hway⟩)
      · exact .inr (.inr ⟨hbefore, other, more, hmem, resolve_insert hfree hresolve hlocation⟩)
  · cases hwrite
    exact hframe

/-- Every path that leads to something goes on leading there. What is there is the same, or it is
one of the texts. -/
theorem resolve (h : tree.Frame after directory texts) {path : String} {place : Location}
    {content : Content} (hpath : tree.resolve path = .ok (place, content)) :
    after.resolve path = .ok (place, content) ∨
      ∃ other text, (other, text) ∈ texts ∧ after.resolve path = after.resolve other := by
  obtain ⟨hpath, hwalk, hfind⟩ := resolve_eq_ok_iff.1 hpath
  have hstart : after.start path = tree.start path := by rw [start, start, h.current]
  have hafter : after.walk (after.start path) (pathNames path) = .ok place := by
    rw [hstart]
    exact walk_mono (fun _ ↦ h.directory_stays) hwalk
  obtain heq | ⟨hnone, -⟩ | ⟨-, other, text, hmem, hother⟩ := h.find place
  · exact .inl (resolve_eq_ok_iff.2 ⟨hpath, hafter, heq.trans hfind⟩)
  · rw [hnone] at hfind
    cases hfind
  · have hplace := (resolve_eq_ok_iff.1 hother).2.2
    exact .inr ⟨other, text, hmem, (resolve_eq_ok_iff.2 ⟨hpath, hafter, hplace⟩).trans hother.symm⟩

end Frame

end AbiBindings.Files.Tree
