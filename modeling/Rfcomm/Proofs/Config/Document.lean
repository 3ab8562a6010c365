import Rfcomm.Proofs.Toml.Lines
/-! Settings read back from their document, whatever texts are in it. -/
namespace Rfcomm.Config

open Toml (Entries Reads reads_quote)
open Toml.Reading (Leads within start leads_first leads_next leads_line leads_blank leads_nil)

variable {c : Config}

/-! ## Settings -/

/-- The entries of the tables in the document of settings. -/
def Bluetooth.entries (b : Bluetooth) : Entries :=
  [("mode", .string b.mode.name), ("channel", .integer b.channel.toNat)] ++
    (match b.adapterAlias with
      | some a => [("adapter_alias", .string a)]
      | none => [])

def Client.entries (c : Client) : Entries := [("address", .string c.address)]

def Server.entries (s : Server) : Entries :=
  [("uuid", .string s.uuid), ("service_name", .string s.serviceName)]

def Tuning.entries (t : Tuning) : Entries :=
  [("read_buffer_size", .integer t.readBufferSize.toNat),
   ("accept_poll_interval_us", .integer t.acceptPollInterval.toNat),
   ("accept_retry_delay_ms", .integer t.acceptRetryDelay.toNat),
   ("event_buffer", .integer t.eventBuffer.toNat)]

def entries (c : Config) : Entries :=
  [("bluetooth", .table .header c.bluetooth.entries), ("client", .table .header c.client.entries),
   ("server", .table .header c.server.entries), ("link", .table .header c.link.entries)]

theorem reads_decimal {n : Nat} (hn : n ≤ largest) : Reads (decimal n) (.integer n) := by
  have hrange : Toml.inRange n = true := by
    rw [Toml.inRange, Bool.and_eq_true, decide_eq_true_eq, decide_eq_true_eq]
    rw [largest] at hn
    omega
  rw [decimal, Nat.toString_eq_ofList_toDigits, String.toList_ofList]
  exact Toml.reads_toDigits hrange

theorem octet?_integer (n : UInt8) : octet? (.integer n.toNat) = some n := by
  have hn := n.toNat_lt
  simp [octet?, natural?]
  omega

theorem number?_integer (n : UInt64) : number? (.integer n.toNat) = some n := by
  have hn := n.toNat_lt
  simp [number?, natural?]
  omega

/-- Every part of the settings can be told from the entries of its table. -/
theorem bluetooth?_entries (b : Bluetooth) : bluetooth? (.table .header b.entries) = some b := by
  obtain ⟨mode, channel, adapterAlias⟩ := b
  have hmode : mode? (.string mode.name) = some mode := by cases mode <;> rfl
  have hchannel := octet?_integer channel
  cases adapterAlias with
  | none =>
    have hfields : fields? ["mode", "channel", "adapter_alias"]
        (.table .header (Bluetooth.entries ⟨mode, channel, none⟩)) =
        some [some (.string mode.name), some (.integer channel.toNat), none] := rfl
    rw [bluetooth?, hfields]
    simp [orDefault, hmode, hchannel]
  | some a =>
    have hfields : fields? ["mode", "channel", "adapter_alias"]
        (.table .header (Bluetooth.entries ⟨mode, channel, some a⟩)) =
        some [some (.string mode.name), some (.integer channel.toNat), some (.string a)] := rfl
    rw [bluetooth?, hfields]
    simp [orDefault, hmode, hchannel, text?]

theorem client?_entries (c : Client) : client? (.table .header c.entries) = some c := rfl

theorem server?_entries (s : Server) : server? (.table .header s.entries) = some s := rfl

theorem tuning?_entries (t : Tuning) : tuning? (.table .header t.entries) = some t := by
  have hfields : fields? ["read_buffer_size", "accept_poll_interval_us", "accept_retry_delay_ms",
      "event_buffer"] (.table .header t.entries) =
      some [some (.integer t.readBufferSize.toNat), some (.integer t.acceptPollInterval.toNat),
        some (.integer t.acceptRetryDelay.toNat), some (.integer t.eventBuffer.toNat)] := rfl
  rw [tuning?, hfields]
  simp [orDefault, number?_integer]

theorem ofEntries?_entries (c : Config) : ofEntries? c.entries = some c := by
  have hbluetooth : Entries.get? c.entries "bluetooth" = some (.table .header c.bluetooth.entries) := rfl
  have hclient : Entries.get? c.entries "client" = some (.table .header c.client.entries) := rfl
  have hserver : Entries.get? c.entries "server" = some (.table .header c.server.entries) := rfl
  have hlink : Entries.get? c.entries "link" = some (.table .header c.link.entries) := rfl
  simp only [ofEntries?, hbluetooth, hclient, hserver, hlink, orDefault, bluetooth?_entries, client?_entries,
    server?_entries, tuning?_entries, Option.bind_eq_bind, Option.bind_some]

/-! ## The document -/

variable {es es' es'' : Entries}

theorem leads_bluetooth (b : Bluetooth) :
    Leads start
      (tableText "bluetooth"
        (textEntry "mode" b.mode.name ++ entry "channel" (decimal b.channel.toNat) ++
          (match b.adapterAlias with
            | some a => textEntry "adapter_alias" a
            | none => [])))
      (within [] "bluetooth" b.entries) := by
  have hchannel : b.channel.toNat ≤ largest := by
    have := b.channel.toNat_lt
    rw [largest]
    omega
  have hlines : Leads (within [] "bluetooth" [])
      (textEntry "mode" b.mode.name ++ entry "channel" (decimal b.channel.toNat))
      (within [] "bluetooth" [("mode", .string b.mode.name), ("channel", .integer b.channel.toNat)]) :=
    (leads_line (by decide) (reads_quote b.mode.name) rfl).append
      (leads_line (by decide) (reads_decimal hchannel) rfl)
  refine (leads_first (by decide)).append ?_
  unfold Bluetooth.entries
  cases b.adapterAlias with
  | none => exact hlines.append leads_nil
  | some a => exact hlines.append (leads_line (by decide) (reads_quote a) rfl)

theorem leads_client (c : Client) :
    Leads (within [] "bluetooth" es) (tableText "client" (textEntry "address" c.address))
      (within [("bluetooth", .table .header es)] "client" c.entries) :=
  (leads_next (by decide) rfl rfl).append (leads_line (by decide) (reads_quote c.address) rfl)

theorem leads_server (s : Server) :
    Leads (within [("bluetooth", .table .header es)] "client" es')
      (tableText "server" (textEntry "uuid" s.uuid ++ textEntry "service_name" s.serviceName))
      (within [("bluetooth", .table .header es), ("client", .table .header es')] "server" s.entries) :=
  (leads_next (by decide) rfl rfl).append
    ((leads_line (by decide) (reads_quote s.uuid) rfl).append
      (leads_line (by decide) (reads_quote s.serviceName) rfl))

theorem leads_link {t : Tuning} (h : ∀ n ∈ t.numbers, n.toNat ≤ largest) :
    Leads (within [("bluetooth", .table .header es), ("client", .table .header es')] "server" es'')
      (tableText "link"
        (entry "read_buffer_size" (decimal t.readBufferSize.toNat) ++
          entry "accept_poll_interval_us" (decimal t.acceptPollInterval.toNat) ++
          entry "accept_retry_delay_ms" (decimal t.acceptRetryDelay.toNat) ++
          entry "event_buffer" (decimal t.eventBuffer.toNat)))
      (within [("bluetooth", .table .header es), ("client", .table .header es'),
        ("server", .table .header es'')] "link" t.entries) := by
  simp only [Tuning.numbers, List.forall_mem_cons] at h
  obtain ⟨hread, hpoll, hretry, hevents, -⟩ := h
  refine (leads_next (by decide) rfl rfl).append ?_
  exact (((leads_line (by decide) (reads_decimal hread) rfl).append
    (leads_line (by decide) (reads_decimal hpoll) rfl)).append
      (leads_line (by decide) (reads_decimal hretry) rfl)).append
        (leads_line (by decide) (reads_decimal hevents) rfl)

/-- Settings whose numbers can be written read back. -/
theorem parse?_chars (h : ∀ n ∈ c.link.numbers, n.toNat ≤ largest) :
    parse? (String.ofList c.chars) = some c := by
  have hlead := (((((leads_bluetooth c.bluetooth).append leads_blank).append
    (leads_client c.client)).append leads_blank).append (leads_server c.server)).append leads_blank
  have hentries : Toml.parse? (String.ofList c.chars) = some c.entries :=
    (hlead.append (leads_link h)).parse? nofun rfl
  rw [parse?, hentries, Option.bind_some, ofEntries?_entries]

/-- Settings are written unless one of their numbers is beyond those of documents. -/
theorem render_of_le (h : ∀ n ∈ c.link.numbers, n.toNat ≤ largest) :
    c.render = .ok (String.ofList c.chars) :=
  if_pos (List.all_eq_true.mpr fun n hn => decide_eq_true (h n hn))

theorem render_of_large (h : ∃ n ∈ c.link.numbers, largest < n.toNat) :
    c.render = .error "out-of-range value for u64 type" := by
  obtain ⟨n, hn, hlt⟩ := h
  refine if_neg fun hall => ?_
  have hle := of_decide_eq_true (List.all_eq_true.mp hall n hn)
  exact absurd hlt (Nat.not_lt.mpr hle)

end Rfcomm.Config
