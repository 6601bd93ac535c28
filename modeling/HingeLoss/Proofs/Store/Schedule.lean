import Mathlib.Data.List.Nodup
import Mathlib.Data.List.Perm.Basic
import Mathlib.Logic.Function.Basic
import HingeLoss.Term.Basic

/-! Schedules of producers, in which every term is told from all others by where it comes from. -/

namespace HingeLoss

/-- What a producer asks of a grounding session: one term, or a batch under one lock. -/
inductive GroundingCall (α : Type) where
  | add (term : Term α)
  | addAll (terms : List (Term α))

/-- The producer of a term, the number of the call among those of the producer, and the position in
the call. -/
structure TermLabel (ι : Type) where
  producer : ι
  call : Nat
  position : Nat
deriving DecidableEq

namespace GroundingCall

variable {ι α : Type}

def terms : GroundingCall α → List (Term α)
  | add term => [term]
  | addAll terms => terms

/-- The terms before the first one with an atom that is not there. -/
def accepted (size : Nat) (call : GroundingCall α) : List (Term α) :=
  call.terms.takeWhile fun term => term.atoms.all (·.index < size)

/-- The accepted terms with their labels. -/
def labelled (size : Nat) (producer : ι) (number : Nat) (call : GroundingCall α) :
    List (TermLabel ι × Term α) :=
  (call.accepted size).zipIdx.map fun entry => (⟨producer, number, entry.2⟩, entry.1)

theorem map_snd_labelled (size : Nat) (producer : ι) (number : Nat) (call : GroundingCall α) :
    (call.labelled size producer number).map Prod.snd = call.accepted size := by
  rw [labelled, List.map_map]
  exact List.zipIdx_map_fst 0 _

theorem label_of_mem_labelled {size : Nat} {producer : ι} {number : Nat} {call : GroundingCall α}
    {entry : TermLabel ι × Term α} (member : entry ∈ call.labelled size producer number) :
    entry.1.producer = producer ∧ entry.1.call = number := by
  obtain ⟨_, -, rfl⟩ := List.mem_map.mp member
  exact ⟨rfl, rfl⟩

theorem nodup_labelled (size : Nat) (producer : ι) (number : Nat) (call : GroundingCall α) :
    ((call.labelled size producer number).map Prod.fst).Nodup := by
  have positions : ((call.accepted size).zipIdx.map Prod.snd).Nodup := by
    rw [List.zipIdx_map_snd]
    exact List.nodup_range'
  rw [labelled, List.map_map]
  refine List.Nodup.of_map TermLabel.position ?_
  rw [List.map_map]
  exact positions

end GroundingCall

/-- The accepted terms of the calls of one producer. -/
def programTerms {ι α : Type} (size : Nat) (producer : ι) :
    Nat → List (GroundingCall α) → List (TermLabel ι × Term α)
  | _, [] => []
  | number, call :: later =>
      call.labelled size producer number ++ programTerms size producer (number + 1) later

section

variable {ι α : Type} [DecidableEq ι] {schedule other : List (ι × GroundingCall α)}

/-- The accepted terms of a row of calls. Every producer goes on from the calls that it has made. -/
def scheduledTerms (size : Nat) : (ι → Nat) → List (ι × GroundingCall α) →
    List (TermLabel ι × Term α)
  | _, [] => []
  | made, (producer, call) :: later =>
      call.labelled size producer (made producer) ++
        scheduledTerms size (Function.update made producer (made producer + 1)) later

/-- A row of calls in which every producer makes its own calls in its own order. -/
def Interleaves (programs : ι → List (GroundingCall α)) (schedule : List (ι × GroundingCall α)) :
    Prop :=
  ∀ producer, (schedule.filter fun entry => entry.1 = producer).map Prod.snd = programs producer

theorem map_snd_scheduledTerms (size : Nat) (made : ι → Nat)
    (schedule : List (ι × GroundingCall α)) :
    (scheduledTerms size made schedule).map Prod.snd =
      schedule.flatMap fun entry => entry.2.accepted size := by
  induction schedule generalizing made with
  | nil => rfl
  | cons entry later inductionHypothesis =>
      rw [scheduledTerms, List.map_append, inductionHypothesis, GroundingCall.map_snd_labelled,
        List.flatMap_cons]

/-- The terms of a producer are those of its calls, in their order. -/
theorem filter_scheduledTerms (size : Nat) (made : ι → Nat) (producer : ι)
    (schedule : List (ι × GroundingCall α)) :
    (scheduledTerms size made schedule).filter (fun entry => entry.1.producer = producer) =
      programTerms size producer (made producer)
        ((schedule.filter fun entry => entry.1 = producer).map Prod.snd) := by
  induction schedule generalizing made with
  | nil => rfl
  | cons entry later inductionHypothesis =>
      obtain ⟨caller, call⟩ := entry
      rw [scheduledTerms, List.filter_append, inductionHypothesis, List.filter_cons]
      by_cases own : caller = producer
      · subst own
        have all : (call.labelled size caller (made caller)).filter
            (fun entry => entry.1.producer = caller) = call.labelled size caller (made caller) :=
          List.filter_eq_self.mpr fun entry member =>
            decide_eq_true (GroundingCall.label_of_mem_labelled member).1
        rw [all, if_pos (decide_eq_true rfl), List.map_cons, programTerms, Function.update_self]
      · have none : (call.labelled size caller (made caller)).filter
            (fun entry => entry.1.producer = producer) = [] :=
          List.filter_eq_nil_iff.mpr fun entry member same =>
            own ((GroundingCall.label_of_mem_labelled member).1.symm.trans (of_decide_eq_true same))
        rw [none, if_neg (by simpa using own), List.nil_append,
          Function.update_of_ne (Ne.symm own)]

/-- The accepted terms of a call stand next to each other. -/
theorem contiguous_scheduledTerms (size : Nat) (made : ι → Nat) {producer : ι} {number : Nat}
    {call : GroundingCall α}
    (made_call : ((schedule.filter fun entry => entry.1 = producer).map Prod.snd)[number]? =
      some call) :
    ∃ before after, scheduledTerms size made schedule =
      before ++ call.labelled size producer (made producer + number) ++ after := by
  induction schedule generalizing made number with
  | nil => cases made_call
  | cons entry later inductionHypothesis =>
      obtain ⟨caller, first⟩ := entry
      rw [scheduledTerms]
      rw [List.filter_cons] at made_call
      by_cases own : caller = producer
      · subst own
        rw [if_pos (decide_eq_true rfl), List.map_cons] at made_call
        cases number with
        | zero =>
            cases made_call
            exact ⟨[], _, rfl⟩
        | succ number =>
            obtain ⟨before, after, split⟩ := inductionHypothesis
              (Function.update made caller (made caller + 1)) made_call
            rw [Function.update_self, Nat.add_right_comm, Nat.add_assoc] at split
            refine ⟨first.labelled size caller (made caller) ++ before, after, ?_⟩
            rw [split, List.append_assoc, List.append_assoc, List.append_assoc]
      · rw [if_neg (by simpa using own)] at made_call
        obtain ⟨before, after, split⟩ := inductionHypothesis
          (Function.update made caller (made caller + 1)) made_call
        rw [Function.update_of_ne (Ne.symm own)] at split
        refine ⟨first.labelled size caller (made caller) ++ before, after, ?_⟩
        rw [split, List.append_assoc, List.append_assoc, List.append_assoc]

/-- Calls are numbered from those that were made before. -/
theorem made_le_of_mem {size : Nat} {made : ι → Nat} {entry : TermLabel ι × Term α}
    (member : entry ∈ scheduledTerms size made schedule) :
    made entry.1.producer ≤ entry.1.call := by
  induction schedule generalizing made with
  | nil => cases member
  | cons head later inductionHypothesis =>
      obtain ⟨caller, call⟩ := head
      rcases List.mem_append.mp member with here | later
      · obtain ⟨rfl, same⟩ := GroundingCall.label_of_mem_labelled here
        exact Nat.le_of_eq same.symm
      · refine Nat.le_trans ?_ (inductionHypothesis later)
        by_cases own : entry.1.producer = caller
        · rw [own, Function.update_self]
          exact Nat.le_succ _
        · exact Nat.le_of_eq (Function.update_of_ne own _ _).symm

/-- No two terms have one label. -/
theorem nodup_scheduledTerms (size : Nat) (made : ι → Nat) (schedule : List (ι × GroundingCall α)) :
    ((scheduledTerms size made schedule).map Prod.fst).Nodup := by
  induction schedule generalizing made with
  | nil => exact List.nodup_nil
  | cons head later inductionHypothesis =>
      obtain ⟨caller, call⟩ := head
      rw [scheduledTerms, List.map_append]
      refine List.Nodup.append (GroundingCall.nodup_labelled _ _ _ _) (inductionHypothesis _) ?_
      intro label here afterwards
      obtain ⟨entry, member, rfl⟩ := List.mem_map.mp here
      obtain ⟨again, laterMember, same⟩ := List.mem_map.mp afterwards
      obtain ⟨producer, number⟩ := GroundingCall.label_of_mem_labelled member
      have later := made_le_of_mem laterMember
      rw [same, producer, number, Function.update_self] at later
      exact Nat.not_succ_le_self _ later

/-- Two rows of the same calls have the same terms under the same labels. -/
theorem scheduledTerms_perm {programs : ι → List (GroundingCall α)} (size : Nat) (made : ι → Nat)
    (interleaves : Interleaves programs schedule) (otherInterleaves : Interleaves programs other) :
    (scheduledTerms size made schedule).Perm (scheduledTerms size made other) := by
  rw [List.perm_ext_iff_of_nodup (nodup_scheduledTerms size made schedule).of_map
    (nodup_scheduledTerms size made other).of_map]
  intro entry
  have own (row : List (ι × GroundingCall α)) : entry ∈ scheduledTerms size made row ↔
      entry ∈ (scheduledTerms size made row).filter
        fun held => held.1.producer = entry.1.producer := by
    rw [List.mem_filter, decide_eq_true_eq, and_iff_left rfl]
  rw [own schedule, own other, filter_scheduledTerms, filter_scheduledTerms, interleaves,
    otherInterleaves]

end

end HingeLoss
