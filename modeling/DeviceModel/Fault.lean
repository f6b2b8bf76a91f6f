/-!
# Places where the program stops

Each constructor names an assertion of the source, or a loop or array access
that the source does not guard. A step that reaches one of them does not return.
-/

namespace DeviceModel

inductive Fault where
  /-- `mr->name == memp->name` in `unregister_mem` -/
  | unregisterMemName
  /-- `mr->base == memp->base && mr->size == memp->size` in `unregister_mem` -/
  | unregisterMemExtent
  /-- `(mr->flags & MEM_F_IMMUTABLE) == 0` in `unregister_mem` -/
  | unregisterMemImmutable
  /-- `error == 0` in `modify_bar_registration` -/
  | modifyBarRegistration
  /-- the offset assertions of the `pci_get_cfgdata` and `pci_set_cfgdata` accessors -/
  | cfgdataAccess
  /-- the search loop of `pci_emul_capwrite` goes round for ever -/
  | capwriteSearch
  /-- `offset >= capoff` in `pci_emul_capwrite` -/
  | capwriteOffset
  /-- `caplen > 0` in `pci_emul_add_capability` -/
  | addCapabilityLength
  /-- `assert(0)` in `update_bar_address` -/
  | updateBarAddressType
  /-- `error == 0` after `init_pci` registers the ECFG window -/
  | initPciEcfg
  /-- `(size & (size - 1)) == 0` in `pci_emul_alloc_resource` -/
  | allocResourceSize
  /-- the assertions on `idx` and `type` in `pci_emul_alloc_pbar` -/
  | allocPbarArgument
  /-- `pdi` is a null pointer in `pci_emul_mem_handler` -/
  | memHandlerDevice
  /-- the assertions on `bidx` and on the type of the BAR in `pci_emul_mem_handler` -/
  | memHandlerBar
  /-- the assertion of `pci_emul_mem_handler` that the access lies in the BAR -/
  | memHandlerExtent
  /-- a range without a handler is accessed -/
  | memHandlerNull
  /-- `req->data_len < 8` in `emul_mem` -/
  | accessWidth
  /-- an index of `emul_mem` or `emul_pci` lies outside its buffer -/
  | bufferIndex
  /-- `elink->type == PCI_GENERIC` in `emul_pci` -/
  | unknownDevice
  /-- `pi->pi_lintr.pin > 0` in `pci_lintr_assert` and `pci_lintr_deassert` -/
  | lintrPin
  /-- the wait of `e82545_tx_disable` for `esc_tx_active` goes on for ever -/
  | txDisable
  /-- the wait of `e82545_rx_disable` for `esc_rx_active` goes on for ever -/
  | rxDisable
  /-- `idx < 15` in `e82545_write_ra` and `e82545_read_ra` -/
  | raIndex
  /-- `!sc->esc_rx_enabled` in `e82545_write_register` -/
  | rdEnabled
  /-- `dtype == ntype` in `e82545_transmit` -/
  | txdescType
  /-- the descriptor loop of `e82545_transmit` goes round for ever -/
  | txdescLoop
  /-- `e82545_transmit` gathers header bytes beyond the last vector of the packet -/
  | headerGather
  /-- `e82545_transmit` reads or writes outside its copy of the header -/
  | headerCopy
  /-- the segmentation loop of `e82545_transmit` goes on for ever -/
  | segmentLoop
  /-- a remainder modulo zero in `e82545_tap_callback` -/
  | ringSize
  /-- the loop of `e82545_tap_callback` takes in more packets than the run allows it -/
  | rxLoop
  /-- `be != NULL` and `be->be_status == BST_FREE` in `blockif_enqueue` -/
  | enqueueElem
  /-- `be->be_status == BST_BLOCK` in `blockif_dequeue` -/
  | dequeueStatus
  /-- an element of the block queue without a request is processed -/
  | procRequest
  /-- `bc->bc_magic == BLOCKIF_SIG` -/
  | blockifMagic
  /-- the wait of `blockif_cancel` for a busy element goes on for ever -/
  | cancelBusy
  /-- the loop of `blockif_thr` takes in more requests than the run allows it -/
  | thrLoop
  /-- a port without a disk is used like one with a disk -/
  | nullBctx
  /-- a port without a disk looks for its controller -/
  | nullSc
  /-- `todo > 0` in `ahci_build_iov` -/
  | buildIovTodo
  /-- `aior != NULL` in `ahci_handle_rw`, `ahci_handle_flush` and `ahci_handle_dsm_trim` -/
  | aiorNull
  /-- `err == 0` in `ahci_handle_rw`, `ahci_handle_flush` and `ahci_handle_dsm_trim` -/
  | aiorRefused
  /-- the loop of `ahci_handle_port` has more rounds than the run allows it -/
  | portLoop
  /-- the assertions of `pci_ahci_write` on the BAR and the alignment -/
  | ahciAccess
deriving DecidableEq, Repr

end DeviceModel
