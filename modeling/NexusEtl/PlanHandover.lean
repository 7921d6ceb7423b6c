import NexusEtl.ArtifactFiles
import NexusEtl.PlanFile

/-!
# From planning to apply

Planning processes write their plans while apply processes read them. What an apply process
reads from a plan's path is the whole plan of one planning process, however the processes
interleave and wherever some of them fail or are killed.
-/

set_option autoImplicit false

namespace NexusEtl.PlanHandover
open NexusEtl.Library ArtifactFiles PlanFile

variable {ι : Type} (jobs : ι → Job)

/-- The process writes the plan of the run to the path. -/
def Plans (path : String) (i : ι) (run : PlanRun) (built : PlanBuilder) : Prop :=
  ∃ w, jobs i = .write w ∧ w.target = path ∧ w.text = (planText run built).toList

/-- Whatever is written to the path is the plan of a run. -/
def OnlyPlans (path : String) : Prop :=
  ∀ i w, jobs i = .write w → w.target = path → ∃ run built, run.dataset ≠ "" ∧ Storable built ∧
    w.text = (planText run built).toList

variable {jobs} {start : Disk ι} {path : String}

/-- A text that can be read from the path is a plan's. -/
theorem readable_plan (hplans : OnlyPlans jobs path) (hnew : start.entry path = none)
    {text : List Char} (h : Readable jobs start path text) :
    ∃ i run built, Plans jobs path i run built ∧ run.dataset ≠ "" ∧ Storable built ∧
      String.ofList text = planText run built := by
  rcases h with (⟨id,hid,-⟩ | ⟨i,w,hjob,htarget,htext⟩) | ⟨target,hlink,-⟩
  · rw [hnew] at hid
    cases hid
  · obtain ⟨run,built,hdataset,hstorable,hplan⟩ := hplans i w hjob htarget
    refine ⟨i,run,built,⟨w,hjob,htarget,hplan⟩,hdataset,hstorable,?_⟩
    rw [← htext, hplan, String.ofList_toList]
  · rw [hnew] at hlink
    cases hlink

variable [DecidableEq ι]

/-- An apply process that has read the path got the plan of one planning process, item by item. -/
theorem handed_over (h : Idle jobs start) (order : List ι) {i : ι} {sizes : List Nat}
    (hjob : jobs i = .read path sizes) (hpath : ¬IsTemp jobs path)
    (hnew : start.entry path = none) (hplans : OnlyPlans jobs path) {text : List Char}
    (hr : (after jobs start order).threads i = .done (.ok (some text))) :
    ∃ j run built plan, Plans jobs path j run built ∧
      readPlanFile path (String.ofList text) = .ok plan ∧
      plan.toPlan = some ⟨⟨some run.runId,some run.dataset⟩,built.summary,
        built.planItems.map asRead⟩ := by
  rcases reader_ended h order hjob hpath hr with ⟨text',htext,hreadable⟩ | ⟨exc,hexc,-⟩
  · obtain rfl := Option.some.inj (Except.ok.inj htext)
    obtain ⟨j,run,built,hjobs,hdataset,hstorable,hplan⟩ := readable_plan hplans hnew hreadable
    obtain ⟨plan,hread,hitems⟩ := read_written run hdataset hstorable path
    exact ⟨j,run,built,plan,hjobs,by rw [hplan, hread],hitems⟩
  · cases hexc

/-- A plan file that is written in one piece, and a process that reads it. -/
def planWrite (text : List Char) : ArtifactWrite :=
  { directory := "plans", stem := "r1", randoms := ["ab"], pieces := [(text,none)]
    mkdirFault := none, syncFault := none, closeFault := none, replaceFault := none
    unlinkFault := none }

def handover (text : List Char) : Bool → Job
  | true => .write (planWrite text)
  | false => .read "plans/r1.json" []

theorem handover_idle (text : List Char) : Idle (handover text) empty := by
  refine ⟨?_,?_,?_,?_⟩
  · intro p id h
    cases h
  · exact fun _ h => absurd h (Nat.not_lt_zero _)
  · exact fun _ h => absurd h (Nat.not_lt_zero _)
  · intro p q h
    cases h

theorem handover_ended (text : List Char) :
    (after (handover text) empty [true,true,true,true,false,false]).threads false =
      .done (.ok (some text)) := rfl

theorem handover_plans {text : List Char} {run : PlanRun} {built : PlanBuilder}
    (hdataset : run.dataset ≠ "") (hstorable : Storable built)
    (htext : text = (planText run built).toList) : OnlyPlans (handover text) "plans/r1.json" := by
  intro i w hjob _
  cases i with
  | true =>
    obtain rfl := Job.write.inj hjob
    refine ⟨run,built,hdataset,hstorable,?_⟩
    rw [← htext]
    exact List.append_nil _
  | false => cases hjob

theorem handed_over_hired : ∃ (text : List Char) (j : Bool) (run : PlanRun) (built : PlanBuilder)
    (plan : FilePlan), Plans (handover text) "plans/r1.json" j run built ∧
      readPlanFile "plans/r1.json" (String.ofList text) = .ok plan ∧
      plan.toPlan = some ⟨⟨some run.runId,some run.dataset⟩,built.summary,
        built.planItems.map asRead⟩ := by
  obtain ⟨text,htext⟩ : ∃ text, text =
      (planText ⟨"r1","2024-01-01","people",true⟩ (PlanBuilder.buildFromStream hired)).toList :=
    ⟨_,rfl⟩
  exact ⟨text,handed_over (handover_idle text) [true,true,true,true,false,false] rfl
    (target_not_temp (handover text) (planWrite text)) rfl
    (handover_plans (by decide) hired_storable htext) (handover_ended text)⟩

end NexusEtl.PlanHandover
