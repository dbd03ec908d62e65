import Mathlib.Data.List.Induction

-- Messages that come in parts, each of which says whether there is more to its message. A part joins
-- whatever has been left unfinished before it.
namespace Multipart

variable {α : Type*} (more : α → Bool) {parts parts' : List α} {a : α}

-- The finished messages, and the parts of the one that is not.
def collect (state : List (List α) × List α) (a : α) : List (List α) × List α :=
  if more a then (state.fst, state.snd ++ [a]) else (state.fst ++ [state.snd ++ [a]], [])

def messages (parts : List α) : List (List α) := (parts.foldl (collect more) ([], [])).fst

def unfinished (parts : List α) : List α := (parts.foldl (collect more) ([], [])).snd

variable {more}

theorem messages_concat : messages more (parts ++ [a]) =
    messages more parts ++ if more a then [] else [unfinished more parts ++ [a]] := by
  rw [messages, unfinished, List.foldl_append, List.foldl_cons, List.foldl_nil, collect]
  split <;> simp [messages]

theorem unfinished_concat : unfinished more (parts ++ [a]) =
    if more a then unfinished more parts ++ [a] else [] := by
  rw [unfinished, List.foldl_append, List.foldl_cons, List.foldl_nil, collect]
  split <;> rfl

theorem unfinished_of_more (h : ∀ a ∈ parts, more a) : unfinished more parts = parts := by
  induction parts using List.reverseRecOn
  case nil => rfl
  case append_singleton parts a hi =>
    have ha : more a := h a <| List.mem_append_right _ List.mem_cons_self
    rw [unfinished_concat, if_pos ha, hi fun b hb => h b <| List.mem_append_left _ hb]

theorem messages_of_more (h : ∀ a ∈ parts, more a) : messages more parts = [] := by
  induction parts using List.reverseRecOn
  case nil => rfl
  case append_singleton parts a hi =>
    have ha : more a := h a <| List.mem_append_right _ List.mem_cons_self
    rw [messages_concat, if_pos ha, hi fun b hb => h b <| List.mem_append_left _ hb]
    rfl

theorem more_of_mem_unfinished (h : a ∈ unfinished more parts) : more a := by
  induction parts using List.reverseRecOn
  case nil => contradiction
  case append_singleton parts b hi =>
    rw [unfinished_concat] at h
    split at h
    case isFalse => contradiction
    case isTrue hb =>
      rcases List.mem_append.mp h with h | h
      case inl => exact hi h
      case inr => exact List.mem_singleton.mp h ▸ hb

-- Only what has not been finished matters to the parts that come later.
theorem unfinished_append :
    unfinished more (parts ++ parts') = unfinished more (unfinished more parts ++ parts') := by
  induction parts' using List.reverseRecOn
  case nil =>
    rw [List.append_nil, List.append_nil, unfinished_of_more fun _ => more_of_mem_unfinished]
  case append_singleton parts' a hi =>
    rw [← List.append_assoc, unfinished_concat, hi, ← List.append_assoc, unfinished_concat]

theorem messages_append : messages more (parts ++ parts') =
    messages more parts ++ messages more (unfinished more parts ++ parts') := by
  induction parts' using List.reverseRecOn
  case nil =>
    rw [List.append_nil, List.append_nil, messages_of_more fun _ => more_of_mem_unfinished,
      List.append_nil]
  case append_singleton parts' a hi =>
    rw [← List.append_assoc, messages_concat, hi, unfinished_append, ← List.append_assoc,
      messages_concat, List.append_assoc]

-- Parts that leave nothing unfinished finish what there was, unless there are none of them.
theorem unfinished_append_suffix (h : unfinished more parts' = []) :
    unfinished more (parts ++ parts') <:+ unfinished more parts := by
  cases parts' using List.reverseRecOn
  case nil => simp
  case append_singleton parts' a =>
    rw [unfinished_concat] at h
    split at h
    case isTrue => simp at h
    case isFalse ha =>
      rw [← List.append_assoc, unfinished_concat, if_neg ha]
      exact List.nil_suffix

end Multipart
