import Sfs.Isolation
import Sfs.TreeServe

namespace Sfs

open FileTree

/-- Two requests on paths of which neither is above the other. -/
def Unrelated (op op' : Op) : Prop := ∃ q q', (∀ c ∈ q, Plain c) ∧ (∀ c ∈ q', Plain c) ∧ op.path = render q ∧
  op'.path = render q' ∧ ¬ q <+: q' ∧ ¬ q' <+: q

variable {s s' : State} {q : Path} {op op' : Op} {ops more : List Op} {disk disk' : Bytes}
  {request request' : TreeRequest (List UInt8) UInt8} {requests : List (TreeRequest (List UInt8) UInt8)}

theorem treeRequest_path : (treeRequest q op).path = q := by cases op <;> rfl

/-- What unrelated requests ask is asked of unrelated paths. -/
theorem Unrelated.apart (unrelated : Unrelated op op') (asks : Asks op request) (asks' : Asks op' request') :
    ¬ request.path <+: request'.path ∧ ¬ request'.path <+: request.path := by
  obtain ⟨q, q', plain, plain', path, path', apart⟩ := unrelated
  obtain rfl := asks.unique ⟨q, plain, path, rfl⟩
  obtain rfl := asks'.unique ⟨q', plain', path', rfl⟩
  rwa [treeRequest_path, treeRequest_path]

theorem asks_unique : Relator.RightUnique Asks := fun _ _ _ first second => first.unique second

theorem asks_append (asks : List.Forall₂ Asks (ops ++ more) requests) :
    ∃ first rest, requests = first ++ rest ∧ List.Forall₂ Asks ops first ∧ List.Forall₂ Asks more rest := by
  induction ops generalizing requests with
  | nil => exact ⟨[], requests, rfl, .nil, asks⟩
  | cons op ops ih =>
    cases asks with
    | cons here there =>
      obtain ⟨first, rest, rfl, firsts, rests⟩ := ih there
      exact ⟨_ :: first, rest, rfl, .cons here firsts, rests⟩

/-- Neighbouring requests on unrelated paths can be exchanged: each request is
answered as before, and so is all that follows. -/
theorem run_exchange (unrelated : Unrelated op op') (run : Run step Honoured (sfsInit disk) (ops ++ [op, op'] ++ more) s)
    (run' : Run step Honoured (sfsInit disk') (ops ++ [op', op] ++ more) s') :
    ∃ requests requests' before answer answer' rest t, before.length = ops.length ∧
      Told (sfsInit disk) (ops ++ [op, op'] ++ more) requests (before ++ [answer, answer'] ++ rest) s ∧
      Told (sfsInit disk') (ops ++ [op', op] ++ more) requests' (before ++ [answer', answer] ++ rest) s' ∧
      Shows s t ∧ Shows s' t := by
  obtain ⟨requests, answers, t, told, serving, shows⟩ := run_transcript run
  obtain ⟨requests', answers', t', told', serving', shows'⟩ := run_transcript run'
  obtain ⟨front, rest, rfl, asks, rests⟩ := asks_append told.asks
  obtain ⟨first, pair, rfl, firsts, pairs⟩ := asks_append asks
  cases pairs with
  | @cons _ request _ _ here pairs =>
    cases pairs with
    | @cons _ request' _ _ next pairs =>
      cases pairs
      have swapped : List.Forall₂ Asks (ops ++ [op', op] ++ more) (first ++ [request', request] ++ rest) :=
        List.rel_append (List.rel_append firsts (.cons next (.cons here .nil))) rests
      obtain rfl := asks_unique.forall₂ told'.asks swapped
      obtain ⟨apart, apart'⟩ := unrelated.apart here next
      obtain ⟨rfl, before, answer, answer', rest', length, rfl, rfl⟩ := serving.exchange apart apart' serving'
      exact ⟨_, _, before, answer, answer', rest', t, length.trans firsts.length_eq.symm, told, told', shows, shows'⟩

/-- Two files are made in either order. -/
theorem run_exchange_first : ∃ s s' requests requests' before answer answer' rest t, before.length = ([] : List Op).length ∧
    Told (sfsInit Bytes.zero) [.create (render [[97]]) Bytes.zero, .create (render [[98]]) Bytes.zero] requests
      (before ++ [answer, answer'] ++ rest) s ∧
    Told (sfsInit Bytes.zero) [.create (render [[98]]) Bytes.zero, .create (render [[97]]) Bytes.zero] requests'
      (before ++ [answer', answer] ++ rest) s' ∧ Shows s t ∧ Shows s' t := by
  have made : ∀ c name, Plain c → c.length ≤ 13 → Plain name → name.length ≤ 13 →
      ∃ s, Run step Honoured (sfsInit Bytes.zero) [.create (render [c]) Bytes.zero, .create (render [name]) Bytes.zero] s := by
    intro c name plain short plain' short'
    obtain ⟨k, first⟩ := create_firstFile Bytes.zero Bytes.zero plain short
    have run : Run step Honoured (sfsInit Bytes.zero) [.create (render [c]) Bytes.zero] _ :=
      .next .nil (honoured_create (ready_create _ _ plain short).permit)
    exact ⟨_, run.next (honoured_create (first.permit_create plain' short' Bytes.zero))⟩
  obtain ⟨s, run⟩ := made [97] [98] plain_a (by decide) plain_b (by decide)
  obtain ⟨s', run'⟩ := made [98] [97] plain_b (by decide) plain_a (by decide)
  have plain : ∀ name, Plain name → ∀ c ∈ [name], Plain c := fun name plain c member => by
    rw [List.mem_singleton.mp member]
    exact plain
  exact ⟨s, s', run_exchange ⟨[[97]], [[98]], plain _ plain_a, plain _ plain_b, rfl, rfl, by decide, by decide⟩
    run run'⟩

end Sfs
