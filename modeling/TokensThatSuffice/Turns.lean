import TokensThatSuffice.Compactors

namespace TokensThatSuffice

open MarkedCuts

structure Turn where
  assistant : Message
  results : List Message
  ids : List String
  isAssistant : assistant.role = .assistant
  calls : assistant.toolCalls.map (·.id) = ids.map some
  nonempty : ids ≠ []
  distinct : ids.Nodup
  areTools : ∀ m ∈ results, m.role = .tool
  answers : results.map (·.toolCallId) = ids.map some

namespace Turn

def messages (t : Turn) : List Message := t.assistant :: t.results

theorem results_length (t : Turn) : t.results.length = t.ids.length := by
  simpa using congrArg List.length t.answers

theorem ids_pos (t : Turn) : 0 < t.ids.length := List.length_pos_iff.mpr t.nonempty

theorem isTool_of_mem (t : Turn) {m : Message} (hm : m ∈ t.results) : m.isTool = true := by
  simp [Message.isTool, t.areTools m hm]

theorem assistant_not_tool (t : Turn) : t.assistant.isTool = false := by
  simp [Message.isTool, t.isAssistant]

theorem toolCount_of_tools {xs : List Message} (h : ∀ m ∈ xs, m.isTool = true) : toolCount xs = xs.length :=
  List.countP_eq_length.mpr h

theorem toolCount_messages (t : Turn) : toolCount t.messages = t.ids.length := by
  rw [messages, toolCount_cons, t.assistant_not_tool, toolCount_of_tools fun m hm => t.isTool_of_mem hm,
    t.results_length]
  simp

end Turn

def turnMessages (ts : List Turn) : List Message := ts.flatMap Turn.messages

def resultCount (ts : List Turn) : ℕ := (ts.map (·.ids.length)).sum

@[simp] theorem turnMessages_nil : turnMessages [] = [] := rfl

@[simp] theorem turnMessages_cons (t : Turn) (ts : List Turn) :
    turnMessages (t :: ts) = t.messages ++ turnMessages ts := rfl

@[simp] theorem turnMessages_append (ts us : List Turn) :
    turnMessages (ts ++ us) = turnMessages ts ++ turnMessages us := List.flatMap_append

@[simp] theorem resultCount_nil : resultCount [] = 0 := rfl

@[simp] theorem resultCount_cons (t : Turn) (ts : List Turn) :
    resultCount (t :: ts) = t.ids.length + resultCount ts := rfl

theorem toolCount_turnMessages (ts : List Turn) : toolCount (turnMessages ts) = resultCount ts := by
  induction ts with
  | nil => rfl
  | cons t ts ih => rw [turnMessages_cons, toolCount_append, t.toolCount_messages, ih, resultCount_cons]

theorem turnMessages_boundary (ts : List Turn) : Boundary Message.isTool (turnMessages ts) := by
  rcases List.eq_nil_or_concat ts with rfl | ⟨us, t, rfl⟩
  · exact boundary_nil
  · rw [List.concat_eq_append, turnMessages_append, turnMessages_cons, turnMessages_nil, List.append_nil]
    have hres : t.results ≠ [] := by
      rw [← List.length_pos_iff, t.results_length]
      exact t.ids_pos
    have hne : t.messages ≠ [] := List.cons_ne_nil _ _
    rw [boundary_append _ hne, Turn.messages, ← List.singleton_append, boundary_append _ hres]
    intro m hm
    apply t.isTool_of_mem
    exact List.mem_of_mem_getLast? hm

inductive TailCut (rs : List Turn) (n : ℕ) : Prop
  | short (h : resultCount rs < n)
  | between (older newer : List Turn) (hrs : rs = older ++ newer) (hn : resultCount newer = n)
  | inside (older : List Turn) (t : Turn) (newer : List Turn) (r : ℕ) (hrs : rs = older ++ t :: newer)
      (hpos : 0 < r) (hlt : r < t.ids.length) (hn : n = resultCount newer + r)

theorem tailCut (rs : List Turn) (n : ℕ) : TailCut rs n := by
  induction rs with
  | nil =>
    rcases Nat.eq_zero_or_pos n with rfl | hn
    · exact .between [] [] rfl rfl
    · exact .short hn
  | cons t rs ih =>
    cases ih with
    | between older newer hrs hn => exact .between (t :: older) newer (by rw [hrs]; rfl) hn
    | inside older u newer r hrs hpos hlt hn =>
      exact .inside (t :: older) u newer r (by rw [hrs]; rfl) hpos hlt hn
    | short h =>
      rcases Nat.lt_trichotomy n (resultCount (t :: rs)) with hlt | heq | hgt
      · refine .inside [] t rs (n - resultCount rs) rfl (by omega) ?_ (by omega)
        rw [resultCount_cons] at hlt
        omega
      · exact .between [] (t :: rs) rfl heq.symm
      · exact .short hgt

theorem lastNTurns_between (older newer : List Turn) :
    lastNTurns (turnMessages (older ++ newer)) (resultCount newer) = turnMessages newer := by
  rcases Nat.eq_zero_or_pos (resultCount newer) with hz | hpos
  · have hnil : newer = [] := by
      cases newer with
      | nil => rfl
      | cons t ts =>
        have := t.ids_pos
        rw [resultCount_cons] at hz
        omega
    subst hnil
    exact lastNTurns_nonpos _ le_rfl
  · rw [turnMessages_append]
    exact lastNTurns_eq hpos ⟨turnMessages_boundary older, toolCount_turnMessages newer⟩

theorem lastNTurns_inside (older : List Turn) (t : Turn) (newer : List Turn) {r : ℕ} (hpos : 0 < r)
    (hlt : r < t.ids.length) :
    lastNTurns (turnMessages (older ++ t :: newer)) ((resultCount newer + r : ℕ) : ℤ) =
      t.results.drop (t.ids.length - r) ++ turnMessages newer := by
  have hsplit : turnMessages (older ++ t :: newer) =
      (turnMessages older ++ t.assistant :: t.results.take (t.ids.length - r)) ++
        (t.results.drop (t.ids.length - r) ++ turnMessages newer) := by
    simp [Turn.messages, List.append_assoc, ← List.append_assoc (t.results.take _)]
  have hlen := t.results_length
  have htake : t.results.take (t.ids.length - r) ≠ [] := by
    rw [← List.length_pos_iff, List.length_take]
    omega
  rw [hsplit]
  apply lastNTurns_eq (by omega)
  constructor
  · rw [← List.singleton_append, ← List.append_assoc, boundary_append _ htake]
    intro m hm
    apply t.isTool_of_mem
    apply List.mem_of_mem_take
    exact List.mem_of_mem_getLast? hm
  · change toolCount _ = _
    rw [toolCount_append, toolCount_turnMessages,
      Turn.toolCount_of_tools fun m hm => t.isTool_of_mem (List.mem_of_mem_drop hm), List.length_drop]
    omega

structure History where
  system : Message
  user : Message
  turns : List Turn
  isSystem : system.role = .system
  isUser : user.role = .user

namespace History

def messages (h : History) : List Message := h.system :: h.user :: turnMessages h.turns

def keepFirst (h : History) (j : ℕ) : ℕ := 2 + (turnMessages (h.turns.take j)).length

theorem take_keepFirst (h : History) (j : ℕ) :
    h.messages.take (h.keepFirst j) = h.system :: h.user :: turnMessages (h.turns.take j) := by
  have hsplit := congrArg turnMessages (List.take_append_drop j h.turns)
  rw [turnMessages_append] at hsplit
  simp only [messages, keepFirst, Nat.add_comm 2, List.take_succ_cons]
  rw [← hsplit, List.take_left' rfl]

theorem drop_keepFirst (h : History) (j : ℕ) :
    h.messages.drop (h.keepFirst j) = turnMessages (h.turns.drop j) := by
  have hsplit := congrArg turnMessages (List.take_append_drop j h.turns)
  rw [turnMessages_append] at hsplit
  simp only [messages, keepFirst, Nat.add_comm 2, List.drop_succ_cons]
  rw [← hsplit, List.drop_left' rfl]

end History

end TokensThatSuffice
