import SolOs.Fat32.Stored
import SolOs.Shell.Cat

/-!
# The file commands and the tree

`ls` and `cat` in terms of the tree that the volume stores.

* `treeLs`, `treeCat`       the output of the two commands, from the tree alone;
* `feed_lines`              a visitor that prints a line for each record;
* `shell_sees_tree`         **what the shell does depends on the tree, not on the volume.**
-/

set_option linter.unusedVariables false

namespace SolOs
namespace Shell
open Checked Console Fat Pieces

/-! ## the commands on a tree -/

/-- a line of `ls` -/
def entryLine (isDirectory : Bool) (size : Nat) (name : Text.Str) : ConsoleOp :=
  println ((if isDirectory then "<DIR>".toList else "     ".toList) ++ [' '] ++
    Text.padLeft ' ' 7 (Text.decimal size) ++ [' '] ++ name)

/-- the line for a command that fails -/
def failure (name : Text.Str) (e : FsError) : Executed := .done [println (name ++ [':', ' '] ++ debugFsError e)]

section
variable (root : Entries)

def treeLs (arguments : List Text.Str) : Executed :=
  if arguments.length > 1 then .done [println "usage: ls [path]".toList]
  else
    match directoryAt root (arguments.head?.getD ['/']) with
    | .error m => failure ['l', 's'] (missError m)
    | .ok entries => .done (entries.map fun x => entryLine (nodeIsDir x.2) (nodeSize x.2) x.1)

def treeCat (arguments : List Text.Str) : Executed :=
  match arguments with
  | [path] =>
    match descendTo root path with
    | .error m => failure ['c', 'a', 't'] (missError m)
    | .ok (.dir _) => failure ['c', 'a', 't'] .isDirectory
    | .ok (.file content) =>
      .done ((chunks Storage.sectorSize content).flatMap printFileChunk ++ [.print ['\n']])
  | _ => .done [println "usage: cat <file>".toList]

end

/-! ## the commands on a volume -/

section
variable {d : Storage.RamDiskBlockDevice} {fs : Fat32} {total : Nat} {root : Entries}

/-- a visitor that prints a line for each record -/
theorem feed_lines {line : Bool → Nat → Text.Str → ConsoleOp}
    {visit : List ConsoleOp → DirEntry → Bool × List ConsoleOp}
    (hvisit : ∀ ops e, visit ops e = (true, ops ++ [line e.isDirectory e.size e.nameStr]))
    {stop fin : Run FsError Unit} {xs : List DirEntry} {entries : Entries} (h : StoresEach d fs xs entries)
    (ops : List ConsoleOp) :
    Visit.feed stop visit xs fin ops
      = (fin, ops ++ entries.map fun x => line (nodeIsDir x.2) (nodeSize x.2) x.1) := by
  induction h generalizing ops with
  | nil => rw [Visit.feed_nil, List.map_nil, List.append_nil]
  | @cons x n xs entries hxn hrest ih =>
    obtain ⟨hkind, hsize⟩ := hxn.2.shown
    have hline : visit ops x = (true, ops ++ [line (nodeIsDir n.2) (nodeSize n.2) n.1]) := by
      rw [hvisit, hkind, hsize, hxn.1]
    rw [Visit.feed_go hline, ih, List.map_cons, List.append_assoc]
    rfl

theorem ls_eq (h : fs.Ok total) (hd : fs.device = d.device) (hs : StoresDir d fs fs.rootCluster root)
    (arguments : List Text.Str) : ls fs arguments = treeLs root arguments := by
  unfold ls treeLs
  by_cases hmany : arguments.length > 1
  · rw [if_pos hmany, if_pos hmany]
  · rw [if_neg hmany, if_neg hmany]
    have hlist := listDir_agrees h hd hs (arguments.head?.getD ['/'])
    cases hat : directoryAt root (arguments.head?.getD ['/']) with
    | error m =>
      rw [hat] at hlist
      rw [hlist]
      rfl
    | ok entries =>
      rw [hat] at hlist
      obtain ⟨xs, heach, hfeed⟩ := hlist
      -- the visitor of `ls` is of this kind
      have hlines : ∀ ops e, listEntry ops e = (true, ops ++ [entryLine e.isDirectory e.size e.nameStr]) :=
        fun _ _ => rfl
      rw [hfeed, feed_lines hlines heach]
      exact congrArg Executed.done (List.append_nil _)

theorem cat_eq (h : fs.Ok total) (hd : fs.device = d.device) (hs : StoresDir d fs fs.rootCluster root)
    (arguments : List Text.Str) : cat fs arguments = treeCat root arguments := by
  cases arguments with
  | nil => rfl
  | cons path rest =>
    cases rest with
    | cons other rest => rfl
    | nil =>
      rw [cat, treeCat, readFile_agrees h hd hs, readTree]
      cases descendTo root path with
      | error m => rfl
      | ok n =>
        cases n with
        | dir entries => rfl
        | file content =>
          dsimp only
          rw [foldl_printFileChunk]
          rfl

end

/-- a command line sees of the volume only what `ls` and `cat` show -/
theorem execute_congr {fs fs' : Fat32} (hls : ls fs = ls fs') (hcat : cat fs = cat fs')
    (system : SystemInfo) : execute fs system = execute fs' system := by
  funext now input
  simp only [execute, runCommand, hls, hcat]

/-- **what the shell does depends on the tree, not on the volume.**  On a mounted volume that stores the
tree `root`, `ls` and `cat` print what the tree says, for all arguments; and on every volume that stores
the same tree, with clusters of any size and in any place, the shell behaves the same way, for every
sequence of key events: the same output, the same lines executed, the same state. -/
theorem shell_sees_tree (d : Storage.RamDiskBlockDevice) (fs : Fat32) (hm : mount d.device = .ok fs)
    (root : Entries) (hs : StoresDir d fs fs.rootCluster root) :
    ls fs = treeLs root ∧ cat fs = treeCat root ∧
      ∀ (d' : Storage.RamDiskBlockDevice) (fs' : Fat32), mount d'.device = .ok fs' →
        StoresDir d' fs' fs'.rootCluster root →
        ∀ (system : SystemInfo) (s : State) (events : List (Readings × Keyboard.KeyEvent)),
          runAll (execute fs system) s events = runAll (execute fs' system) s events := by
  obtain ⟨_, _, hd, h⟩ := mount_ok hm
  have hls : ls fs = treeLs root := funext fun arguments => ls_eq h hd hs arguments
  have hcat : cat fs = treeCat root := funext fun arguments => cat_eq h hd hs arguments
  refine ⟨hls, hcat, ?_⟩
  intro d' fs' hm' hs' system s events
  obtain ⟨_, _, hd', h'⟩ := mount_ok hm'
  have hls' : ls fs' = treeLs root := funext fun arguments => ls_eq h' hd' hs' arguments
  have hcat' : cat fs' = treeCat root := funext fun arguments => cat_eq h' hd' hs' arguments
  rw [execute_congr (hls.trans hls'.symm) (hcat.trans hcat'.symm)]

theorem shell_sees_tree_helloDisk :
    mount helloDisk.device = .ok helloVolume ∧
      StoresDir helloDisk helloVolume helloVolume.rootCluster helloTree ∧
      cat helloVolume ["hello.txt".toList] = .done [.print ['h', 'i', '!'], .print ['\n']] ∧
      ls helloVolume [['d']] = .done [println "            0 F.A".toList] := by
  obtain ⟨hls, hcat, _⟩ := shell_sees_tree helloDisk helloVolume helloDisk_mount helloTree helloDisk_stores
  refine ⟨helloDisk_mount, helloDisk_stores, ?_, ?_⟩
  · rw [hcat]
    rfl
  · rw [hls]
    rfl

end Shell
end SolOs
