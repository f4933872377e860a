import ClassAccess.Proofs.Command.InPlace
import ClassAccess.Proofs.Command.LinkedTurns
import ClassAccess.Proofs.Command.Output

/-!
# Dry runs

A dry run leaves all files, however it ends. When a run in place succeeds, the dry run
from the same files foretells it: it finds the same classes, prints a line about each, and
reports the same owners without a class. The lines are the same but for a class that was
found before under another name: a link leads to it, and by its second turn nothing is
left to change.

With an output directory a dry run need not foretell what is read, since a result may go
where a later class is read from.
-/

namespace ClassAccess.Command

variable {options : Options} {rules : RuleSet}

/-- The same command, as a dry run. -/
def Options.dry (options : Options) : Options := { options with dryRun := true }

/-- The same draft, of a dry run. -/
def Draft.dry (draft : Draft) : Draft := { draft with dryRun := true }

variable {tree : LinkedTree} {seen works : List Work} {turns : List Turn} {turn : Turn}
  {session left : SessionOn LinkedTree}

/-- A class lies where its job looks for it in a tree with links, and can be transformed. -/
structure Work.Found (rules : RuleSet) (tree : LinkedTree) (work : Work) : Prop where
  reached : tree.ReachesFile work.job.source work.location
  stored : tree.file? work.location = some work.before
  transformed : (transform rules work.before).1 = .ok work.made

/-- Where a run in place is in a tree with links. The classes that had their turns hold what is made
of them as they were at the start, and all other files are as they were. -/
structure RewrittenSoFar (rules : RuleSet) (tree : LinkedTree) (seen : List Work)
    (now : LinkedTree) : Prop where
  more : tree.Extends now
  found : ∀ work ∈ seen, work.Found rules tree
  rewritten : ∀ work ∈ seen, now.file? work.location = some work.made.bytes
  untouched : ∀ location ∉ seen.map Work.location, now.file? location = tree.file? location

/-- What is made of a class depends on where it lies. -/
theorem Work.Found.made_eq {work other : Work} (found : work.Found rules tree)
    (foundToo : other.Found rules tree) (same : work.location = other.location) :
    work.made = other.made := by
  have stored := found.stored
  rw [same, foundToo.stored] at stored
  have transformed := found.transformed
  rw [← Option.some.inj stored, foundToo.transformed] at transformed
  exact (Except.ok.inj transformed).symm

/-- One more class is rewritten. -/
theorem RewrittenSoFar.next {now after : LinkedTree} {work : Work}
    (before : RewrittenSoFar rules tree seen now) (more : now.Extends after)
    (found : work.Found rules tree)
    (files : ∀ location, after.file? location =
      if work.location = location then some work.made.bytes else now.file? location) :
    RewrittenSoFar rules tree (work :: seen) after where
  more := before.more.trans more
  found := List.forall_mem_cons.mpr ⟨found, before.found⟩
  rewritten := by
    refine List.forall_mem_cons.mpr ⟨(files _).trans (if_pos rfl), fun other among => ?_⟩
    rw [files]
    split
    · next same => rw [found.made_eq (before.found other among) same]
    · exact before.rewritten other among
  untouched location elsewhere := by
    rw [List.map_cons, List.mem_cons, not_or] at elsewhere
    rw [files, if_neg (Ne.symm elsewhere.1), before.untouched location elsewhere.2]

end ClassAccess.Command
