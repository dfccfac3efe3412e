import ModuleHost.Proofs.FileTree.Leads
import ModuleHost.Proofs.Loading.Carried

/-!
# The names of one file

A name stands for the first file to which one of its candidates leads.  However it is spelled, and
in whatever directory it is looked up, the name comes to the path of the place where this file is
(`Spells.resolve`), and that path stands for itself (`resolve_resolved`).  Two things are needed for
this.  The places to which the candidates lead have to be found there, and every entry of the tree
has to be in a directory.
-/

namespace ModuleHost.World

variable {w : World} {searchPath : SearchPath} {name path candidate : String} {l l' : Location}

def LeadsToFile (w : World) (path : String) (l : Location) : Prop :=
  w.files.LeadsTo w.cwd path l ∧ ∃ contents, w.files.entryAt? l = some (.file contents)

/-- The first candidate for the name that leads to a file leads to the one at `l`. -/
def Reaches (w : World) (searchPath : SearchPath) (name : String) (l : Location) : Prop :=
  ∃ before candidate after, candidates searchPath name = before ++ candidate :: after
    ∧ w.LeadsToFile candidate l ∧ ∀ other ∈ before, ∀ l', ¬ w.LeadsToFile other l'

def Locates (w : World) (searchPath : SearchPath) (name : String) : Prop :=
  ∀ candidate ∈ candidates searchPath name, ∀ l, w.files.LeadsTo w.cwd candidate l →
    w.files.canonicalize w.cwd candidate = .ok l

/-- The name stands for the file at `l`: it reaches the file, or it is the path of its place. -/
inductive Spells (w : World) (searchPath : SearchPath) : String → Location → Prop
  | relative {name : String} {l : Location} (hrelative : Path.isAbsolute name = false)
      (hlocates : w.Locates searchPath name) (hreaches : w.Reaches searchPath name l) :
      Spells w searchPath name l
  | resolved {l : Location} (hfile : w.files.isFile w.cwd l.path = true) :
      Spells w searchPath l.path l

theorem candidateFile?_of_leadsToFile (h : w.LeadsToFile candidate l)
    (hlocate : w.files.canonicalize w.cwd candidate = .ok l) :
    w.candidateFile? candidate = some l :=
  Carries.candidateFile?_eq_some_iff.2 ⟨hlocate, h.2⟩

theorem leadsToFile_of_candidateFile? (h : w.candidateFile? candidate = some l) :
    w.LeadsToFile candidate l := by
  obtain ⟨hlocate, hfile⟩ := Carries.candidateFile?_eq_some_iff.1 h
  exact ⟨FileTree.leadsTo_of_canonicalize hlocate, hfile⟩

/-- What is found by following the candidates is all to which they lead. -/
theorem locates_of_canonicalize (h : ∀ candidate ∈ candidates searchPath name,
    ∃ l, w.files.canonicalize w.cwd candidate = .ok l) : w.Locates searchPath name := by
  intro candidate hmem l hleads
  obtain ⟨l', hlocate⟩ := h candidate hmem
  rw [hlocate, hleads.unique (FileTree.leadsTo_of_canonicalize hlocate)]

theorem Reaches.findSome? (hlocates : w.Locates searchPath name)
    (hreaches : w.Reaches searchPath name l) :
    (candidates searchPath name).findSome? w.candidateFile? = some l := by
  obtain ⟨before, candidate, after, hsplit, hfile, hnot⟩ := hreaches
  have hlocate := hlocates candidate (hsplit ▸ List.mem_append_right _ List.mem_cons_self) l hfile.1
  have hbefore : before.findSome? w.candidateFile? = none := by
    rw [List.findSome?_eq_none_iff]
    intro other ho
    cases hc : w.candidateFile? other with
    | none => rfl
    | some l' => exact absurd (leadsToFile_of_candidateFile? hc) (hnot other ho l')
  rw [hsplit, List.findSome?_append, hbefore, Option.none_or, List.findSome?_cons,
    candidateFile?_of_leadsToFile hfile hlocate]

/-- All names of a file come to the path of its place. -/
theorem Spells.resolve (h : w.Spells searchPath name l) :
    w.resolve searchPath name = .ok l.path := by
  cases h with
  | relative hrelative hlocates hreaches =>
    rw [World.resolve, if_neg (by rw [hrelative]; decide), hreaches.findSome? hlocates]
  | resolved hfile => rw [World.resolve, if_pos (Path.isAbsolute_path l), if_pos hfile]

/-- What a name has been resolved to stands for itself under every search path. -/
theorem resolve_resolved (hw : w.files.WellFormed) (h : w.resolve searchPath name = .ok path)
    (other : SearchPath) : w.resolve other path = .ok path := by
  unfold World.resolve at h
  split at h
  · next habsolute =>
    split at h
    · next hfile =>
      cases h
      rw [World.resolve, if_pos habsolute, if_pos hfile]
    · cases h
  · split at h
    · next l hfound =>
      cases h
      obtain ⟨candidate, -, hcandidate⟩ := List.exists_of_findSome?_eq_some hfound
      obtain ⟨hlocate, contents, he⟩ := Carries.candidateFile?_eq_some_iff.1 hcandidate
      have hopen := FileTree.openEntry_of_canonicalize hw hlocate he w.cwd
      exact (Spells.resolved (Carries.isFile_iff.2 ⟨contents, hopen⟩)).resolve
    · cases h

end ModuleHost.World
