import SolOs.Fat32.Safe

/-!
# FAT32: `ls` and `cat` agree

`list_dir` and `resolve_path` are two traversals of the same directories.  What one shows the other
finds.

* `passed`               the entries that `list_dir` passes to its visitor, in order;
* `findInDirectory_eq`   the search of one directory, over the entries that the directory offers;
* `resolvePath_join`     a path into a directory is resolved in that directory;
* `listDir_resolvePath_agree`   **each entry that is listed is found under its name, and the other
                                way round.**
-/

set_option linter.unusedVariables false

namespace SolOs
namespace Fat
open Checked Storage

section
variable {σ : Type} (fs : Fat32)

/-- the entries that `list_dir` passes to the visitor `visit` -/
def passed (path : Text.Str) (visit : σ → DirEntry → Bool × σ) (s : σ) : List DirEntry :=
  (listDir fs path (Visit.logged visit) (s, [])).2.2

/-- writing the entries down does not change what `list_dir` does -/
theorem listDir_logged (path : Text.Str) (visit : σ → DirEntry → Bool × σ) (s : σ) :
    (listDir fs path (Visit.logged visit) (s, [])).1 = (listDir fs path visit s).1 ∧
      (listDir fs path (Visit.logged visit) (s, [])).2.1 = (listDir fs path visit s).2 := by
  unfold listDir
  cases directoryOf fs path with
  | error f => exact ⟨rfl, rfl⟩
  | ok cluster =>
    obtain ⟨xs, fin, _, hf⟩ := exists_offers fs cluster
    have hrun := Visit.feed_logged_run (.ok ()) fin visit xs [] s
    rw [← hf, ← hf] at hrun
    exact hrun

/-! ## one directory -/

theorem isDot_nameStr {e : DirEntry} (h : e.Named) : isDot e.nameStr = false := by
  obtain ⟨first, rest, htext, hdot⟩ := h
  have hne : Char.ofNat first.toNat ≠ '.' :=
    Text.ofNat_toNat_ne (fun hc => hdot (UInt8.toNat_inj.mp hc))
  unfold isDot DirEntry.nameStr
  rw [htext]
  simp [Text.ofAscii, hne]

theorem nameStr_ne_nil {e : DirEntry} (h : e.Named) : e.nameStr ≠ [] := by
  obtain ⟨first, rest, htext, _⟩ := h
  unfold DirEntry.nameStr
  rw [htext]
  exact List.cons_ne_nil _ _

/-- the search finds the first entry with the name among those that the directory offers -/
theorem findInDirectory_eq {cluster : Nat} {xs : List DirEntry} {fin : Run FsError Unit}
    (hf : Offers fs cluster xs fin) (name : Text.Str) :
    findInDirectory fs cluster name =
      match xs.find? (matchesName name) with
      | some e => .ok e
      | none => fin >>= fun _ => raise .notFound := by
  unfold findInDirectory
  rw [hf, Visit.feed_finder]
  cases xs.find? (matchesName name) with
  | some e => rfl
  | none => cases fin <;> rfl

/-! ## paths -/

theorem resolveFrom_snoc (directory : Nat) (component : Text.Str) (rest : List Text.Str)
    (name : Text.Str) :
    resolveFrom fs directory component (rest ++ [name]) = (do
      let entry ← resolveFrom fs directory component rest
      rejectIf (entry.isDirectory = false) .notDirectory
      rejectIf (isDot name = true) .notFound
      findInDirectory fs entry.firstCluster name) := by
  induction rest generalizing directory component with
  | nil => rfl
  | cons next rest ih =>
    rw [List.cons_append]
    unfold resolveFrom
    simp only [ih, bind_assoc]

/-- a path into a directory is resolved in that directory -/
theorem resolvePath_join {path p name : Text.Str}
    (h : Text.components path = Text.components p ++ [name]) :
    resolvePath fs path = (do
      let cluster ← directoryOf fs p
      rejectIf (isDot name = true) .notFound
      findInDirectory fs cluster name) := by
  unfold directoryOf
  cases hp : Text.components p with
  | nil =>
    rw [if_pos (Text.trimMatches_slash_eq_nil.mpr hp), pure_eq, bind_ok]
    rw [hp, List.nil_append] at h
    unfold resolvePath
    rw [h]
    rfl
  | cons first rest =>
    have hne : ¬ Text.trimMatches '/' p = [] := by
      rw [Text.trimMatches_slash_eq_nil, hp]
      exact List.cons_ne_nil _ _
    rw [hp, List.cons_append] at h
    rw [if_neg hne]
    unfold resolvePath
    rw [h, hp]
    simp only [resolveFrom_snoc, bind_assoc, pure_bind]

/-! ## agreement -/

/-- what a visitor sees is the start of what the directory offers -/
theorem passed_start {p : Text.Str} {cluster : Nat} {xs : List DirEntry} {fin : Run FsError Unit}
    (hdir : directoryOf fs p = .ok cluster) (hf : Offers fs cluster xs fin)
    (visit : σ → DirEntry → Bool × σ) (s : σ) : ∃ rest, xs = passed fs p visit s ++ rest := by
  obtain ⟨seen, rest, hxs, hseen⟩ := Visit.feed_logged (.ok ()) fin visit xs [] s
  refine ⟨rest, ?_⟩
  unfold passed listDir
  rw [hdir]
  show xs = (visitDirectory fs (Visit.logged visit) cluster (s, [])).2.2 ++ rest
  rw [hf, hseen, hxs, List.nil_append]

theorem passed_always {p : Text.Str} {cluster : Nat} {xs : List DirEntry} {fin : Run FsError Unit}
    (hdir : directoryOf fs p = .ok cluster) (hf : Offers fs cluster xs fin) :
    passed fs p Visit.always () = xs := by
  unfold passed listDir
  rw [hdir]
  show (visitDirectory fs (Visit.logged Visit.always) cluster ((), [])).2.2 = xs
  rw [hf, Visit.feed_always, List.nil_append]

/-- what is listed is found -/
theorem resolvePath_of_passed {p : Text.Str} {visit : σ → DirEntry → Bool × σ} {s : σ}
    {pre post : List DirEntry} {e : DirEntry} (hpassed : passed fs p visit s = pre ++ e :: post)
    (hslash : '/' ∉ e.nameStr) (hfirst : ∀ x ∈ pre, matchesName e.nameStr x = false) :
    resolvePath fs (p ++ '/' :: e.nameStr) = .ok e := by
  cases hdir : directoryOf fs p with
  | error f =>
    have hnil : passed fs p visit s = [] := by
      unfold passed listDir
      rw [hdir]
    rw [hnil] at hpassed
    exact absurd hpassed.symm (by simp)
  | ok cluster =>
    obtain ⟨xs, fin, hnamed, hf⟩ := exists_offers fs cluster
    obtain ⟨rest, hxs⟩ := passed_start fs hdir hf visit s
    rw [hpassed, List.append_assoc, List.cons_append] at hxs
    have hname : e.Named := hnamed e (by rw [hxs]; simp)
    have hfind : xs.find? (matchesName e.nameStr) = some e := by
      refine List.find?_eq_some_iff_append.mpr
        ⟨Text.eqIgnoreAsciiCase_refl _, pre, post ++ rest, hxs, fun x hx => ?_⟩
      rw [hfirst x hx]
      rfl
    rw [resolvePath_join fs (Text.components_join hslash (nameStr_ne_nil hname)), hdir, bind_ok,
      isDot_nameStr hname, rejectIf_of_not Bool.false_ne_true, bind_ok, findInDirectory_eq fs hf,
      hfind]

/-- what is found is listed, as the first of its name -/
theorem passed_of_resolvePath {p path name : Text.Str} {e : DirEntry}
    (hcomp : Text.components path = Text.components p ++ [name])
    (hres : resolvePath fs path = .ok e) :
    ∃ pre post, passed fs p Visit.always () = pre ++ e :: post ∧ matchesName name e = true ∧
      ∀ x ∈ pre, matchesName name x = false := by
  rw [resolvePath_join fs hcomp] at hres
  obtain ⟨cluster, hdir, hres⟩ := bind_eq_ok.mp hres
  obtain ⟨_, _, hres⟩ := bind_eq_ok.mp hres
  obtain ⟨xs, fin, _, hf⟩ := exists_offers fs cluster
  rw [findInDirectory_eq fs hf] at hres
  cases hfind : xs.find? (matchesName name) with
  | none =>
    rw [hfind] at hres
    cases fin <;> exact nomatch hres
  | some found =>
    rw [hfind] at hres
    obtain rfl : found = e := Except.ok.inj hres
    obtain ⟨hmatch, pre, post, hxs, hpre⟩ := List.find?_eq_some_iff_append.mp hfind
    refine ⟨pre, post, (passed_always fs hdir hf).trans hxs, hmatch, fun x hx => ?_⟩
    simpa using hpre x hx

end

/-- **`ls` and `cat` agree**: an entry that `list_dir` passes to a visitor, and that no earlier one
hides, is what `resolve_path` finds under its name; and what `resolve_path` finds is the first entry
with that name that `list_dir` passes. -/
theorem listDir_resolvePath_agree (fs : Fat32) (p : Text.Str) :
    (∀ (σ : Type) (visit : σ → DirEntry → Bool × σ) (s : σ) (pre post : List DirEntry) (e : DirEntry),
      passed fs p visit s = pre ++ e :: post → '/' ∉ e.nameStr →
      (∀ x ∈ pre, Text.eqIgnoreAsciiCase x.nameStr e.nameStr = false) →
      resolvePath fs (p ++ '/' :: e.nameStr) = .ok e) ∧
    (∀ (path name : Text.Str) (e : DirEntry),
      Text.components path = Text.components p ++ [name] → resolvePath fs path = .ok e →
      ∃ pre post, passed fs p Visit.always () = pre ++ e :: post ∧
        Text.eqIgnoreAsciiCase e.nameStr name = true ∧
        ∀ x ∈ pre, Text.eqIgnoreAsciiCase x.nameStr name = false) :=
  ⟨fun _ _ _ _ _ _ hpassed hslash hfirst => resolvePath_of_passed fs hpassed hslash hfirst,
    fun _ _ _ hcomp hres => passed_of_resolvePath fs hcomp hres⟩

theorem smallVolume_passed :
    (passed smallVolume ['/', 'D'] Visit.always ()).map DirEntry.nameStr = [['F', '.', 'A']] := by
  decide +kernel

theorem listDir_resolvePath_agree_smallVolume :
    ∃ e, passed smallVolume ['/', 'D'] Visit.always () = [e] ∧
      resolvePath smallVolume ['/', 'D', '/', 'F', '.', 'A'] = .ok e := by
  have hlist := smallVolume_passed
  obtain ⟨e, he⟩ := List.length_eq_one_iff.mp
    ((List.length_map DirEntry.nameStr).symm.trans (congrArg List.length hlist))
  rw [he] at hlist
  have hname : e.nameStr = ['F', '.', 'A'] := List.head_eq_of_cons_eq hlist
  have h := (listDir_resolvePath_agree smallVolume ['/', 'D']).1 Unit Visit.always () [] [] e he
    (by rw [hname]; decide) (fun x hx => absurd hx List.not_mem_nil)
  rw [hname] at h
  exact ⟨e, he, h⟩

end Fat
end SolOs
