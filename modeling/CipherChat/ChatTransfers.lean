import CipherChat.Chat

/-!
# Files in a chat

Any number of clients send each other files, through one table of routes.  A client alone in a chat
is the receiving client of `Reception`, so what happens to one can happen in a chat.
-/

namespace CipherChat

open Resumption Receiver Transition

def onlyClient (c : ClientId) (cfg : ClientConfig) (store : FileStore Bytes UInt8) : ChatConfig :=
  Function.update (fun _ => none) c (some (cfg, store))

section

variable {c : ClientId} {cfg : ClientConfig} {store : FileStore Bytes UInt8}

def Reception.alone (k : Reception) (c : ClientId) : Chat where
  server := k.server
  clients := Function.update (fun _ => none) c (some k.client)

theorem alone_self (k : Reception) : (k.alone c).clients c = some k.client := by
  dsimp only [Reception.alone]
  rw [Function.update_self]

theorem alone_other (k : Reception) {d : ClientId} (hd : d ≠ c) : (k.alone c).clients d = none := by
  dsimp only [Reception.alone]
  rw [Function.update_of_ne hd]

theorem alone_init :
    (reception ⟨cfg, store, c⟩).init.alone c = (chat (onlyClient c cfg store)).init := by
  unfold Reception.alone chat
  congr 1
  funext d
  by_cases hd : d = c
  · subst hd
    rw [onlyClient, Function.update_self, Function.update_self]
    rfl
  · rw [onlyClient, Function.update_of_ne hd, Function.update_of_ne hd]
    rfl

theorem alone_step {k k' : Reception} {l : ReceptionLabel}
    (hsilent : ∀ frame, .received c frame ∉ k'.server.log)
    (h : k.step ⟨cfg, store, c⟩ l = some k') :
    ∃ l', (chat (onlyClient c cfg store)).step (k.alone c) l' = some (k'.alone c) := by
  rcases Reception.step_cases h with ⟨sl, server', rfl, hserver, rfl⟩ |
    ⟨cl, client', rfl, harrives, hclient, rfl⟩
  · refine ⟨.server sl, ?_⟩
    have hsends : (server'.log.drop k.server.log.length).all (k.alone c).sends = true := by
      refine List.all_eq_true.mpr fun e he => ?_
      cases e with
      | received d frame =>
        have hd : d ≠ c := by
          rintro rfl
          exact hsilent frame (List.mem_of_mem_drop he)
        rw [Chat.sends, alone_other k hd]
        rfl
      | _ => rfl
    change Chat.step (onlyClient c cfg store) (k.alone c) (.server sl) = _
    unfold Chat.step
    dsimp only
    rw [show (k.alone c).server = k.server from rfl, hserver]
    dsimp only
    rw [if_pos hsends]
    rfl
  · refine ⟨.client c cl, ?_⟩
    have hreception : (k.alone c).reception (onlyClient c cfg store) c =
        some (⟨cfg, store, c⟩, k) := by
      rw [Chat.reception, alone_self, onlyClient, Function.update_self]
      rfl
    change Chat.step (onlyClient c cfg store) (k.alone c) (.client c cl) = _
    unfold Chat.step
    dsimp only
    rw [hreception]
    dsimp only
    rw [h, Option.map_some]
    unfold Reception.alone
    dsimp only
    rw [Function.update_idem]

theorem chat_of_reception {k : Reception} (hk : (reception ⟨cfg, store, c⟩).Reachable k) :
    (∀ frame, .received c frame ∉ k.server.log) →
      (chat (onlyClient c cfg store)).Reachable (k.alone c) := by
  induction hk with
  | init =>
    intro _
    rw [alone_init]
    exact .init
  | @step k k' l hr _ hstep ih =>
    intro hsilent
    obtain ⟨l', hstep'⟩ := alone_step hsilent hstep
    refine .step (ih fun frame hmem => hsilent frame ?_) trivial hstep'
    -- the history only grows
    rcases Reception.step_cases hstep with ⟨sl, server', -, hserver, rfl⟩ |
      ⟨cl, client', -, -, -, rfl⟩
    · obtain ⟨x', t', evs, -, rfl⟩ := Server.step_eq_some hserver
      exact List.mem_append_left _ hmem
    · exact hmem

end

/-- Whoever sends, under whatever ids and in whatever order, and whatever fails on the way: before
the 32-bit counter of outbound ids wraps, a slot that `receive_file_end` finds complete at any
client holds the chunks of one transfer. -/
theorem concurrent_transfers_stay_apart {g : ChatConfig} {k : Chat} (hk : (chat g).Reachable k)
    (hlt : allocated k.server.log < 2 ^ 32) {c : ClientId} {cfg : ClientConfig}
    {store : FileStore Bytes UInt8} (hg : g c = some (cfg, store)) {p : ClientProcess}
    (hp : k.clients c = some p) {frame : Bytes} {i : Fin maxIncomingFiles}
    (h : Reception.Completes ⟨cfg, store, c⟩ ⟨k.server, p⟩ frame i) :
    ∃ f, (p.state.files.incomingFiles i).file = some f ∧
      FromOneTransfer k.server.log c (p.state.files.incomingFiles i)
        (p.state.files.store.data f.inode) :=
  reception_completes (chat_reception hk hg hp) hlt h

theorem concurrent_transfers_stay_apart_sample : ∃ k p,
    (chat (onlyClient 2 bobClient emptyStore)).Reachable k ∧ k.clients 2 = some p ∧
    (p.state.files.incomingFiles firstSlot).receivedSize = 93 ∧
    ∃ f, (p.state.files.incomingFiles firstSlot).file = some f ∧
      FromOneTransfer k.server.log 2 (p.state.files.incomingFiles firstSlot)
        (p.state.files.store.data f.inode) := by
  obtain ⟨k, hreach, hsilent, hlt, hcompletes, hreceived⟩ := sample_completes
  have hchat := chat_of_reception hreach hsilent
  have hbob : onlyClient 2 bobClient emptyStore 2 = some (bobClient, emptyStore) :=
    Function.update_self ..
  exact ⟨k.alone 2, k.client, hchat, alone_self k, hreceived,
    concurrent_transfers_stay_apart hchat hlt hbob (alone_self k) hcompletes⟩

/-- Once the counter has gone round, the chunks of another transfer can complete a slot that was
left open. -/
theorem returned_id_mixes : ¬∀ (g : ChatConfig) (k : Chat) (c : ClientId) (cfg : ClientConfig)
    (store : FileStore Bytes UInt8) (p : ClientProcess) (frame : Bytes)
    (i : Fin maxIncomingFiles), (chat g).Reachable k → g c = some (cfg, store) →
    k.clients c = some p → Reception.Completes ⟨cfg, store, c⟩ ⟨k.server, p⟩ frame i →
    ∃ f, (p.state.files.incomingFiles i).file = some f ∧
      FromOneTransfer k.server.log c (p.state.files.incomingFiles i)
        (p.state.files.store.data f.inode) := by
  intro hclaim
  obtain ⟨k, hreach, hsilent, hcompletes, hnot⟩ := reused_id_mixes
  have hchat := chat_of_reception hreach hsilent
  obtain ⟨f, hfile, hfrom⟩ := hclaim _ (k.alone 2) 2 bobClient emptyStore k.client sampleEnd
    firstSlot hchat (Function.update_self ..) (alone_self k) hcompletes
  exact hnot f hfile hfrom

end CipherChat
